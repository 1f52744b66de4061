import NativeInterface.Diagnostic.Json
import NativeInterface.Generate
import NativeInterface.Surface.Json

/-!
# Generated code and results as JSON
-/

namespace NativeInterface

namespace GeneratedCode

def toJson (code : GeneratedCode) : Json :=
  .obj [("backend", .str code.backend), ("header", .str code.header), ("source", .str code.source)]

def ofJson? (j : Json) : Option GeneratedCode :=
  match j.record? ["backend", "header", "source"] with
  | some [some backend, some header, some source] =>
    return { backend := ← backend.str?, header := ← header.str?, source := ← source.str? }
  | _ => none

end GeneratedCode

namespace CompileResult

def toJson (r : CompileResult) : Json :=
  .obj [("success", .bool r.success), ("module", .ofOption .str r.moduleName),
    ("backend", .ofOption .str r.backend), ("header", .ofOption .str r.header),
    ("source", .ofOption .str r.source), ("ir_digest", .ofOption .str r.digest),
    ("errors", r.diagnostics.toJson)]

def ofJson? (j : Json) : Option CompileResult :=
  match j.record? ["success", "module", "backend", "header", "source", "ir_digest", "errors"] with
  | some [some success, moduleName, backend, header, source, digest, some diagnostics] =>
    return {
      success := ← success.bool?
      moduleName := ← Json.optional? Json.str? moduleName
      backend := ← Json.optional? Json.str? backend
      header := ← Json.optional? Json.str? header
      source := ← Json.optional? Json.str? source
      digest := ← Json.optional? Json.str? digest
      diagnostics := ← Diagnostics.ofJson? diagnostics }
  | _ => none

end CompileResult

namespace InterfaceConfig

/-- The tags of each module, by name. -/
def entriesOfJson? : Json → Option (List (String × List String))
  | .obj fields => fields.mapM fun (name, tags) => do some (name, ← tags.list? Json.str?)
  | _ => none

/-- Both parts may be left out. -/
def ofJson? (j : Json) : Option InterfaceConfig := do
  some ⟨(← Json.optional? entriesOfJson? (j.field? "natives")).getD [],
    (← Json.optional? entriesOfJson? (j.field? "libs")).getD []⟩

end InterfaceConfig

end NativeInterface
