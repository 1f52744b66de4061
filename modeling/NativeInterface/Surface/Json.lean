import NativeInterface.Json.Writer
import NativeInterface.Surface.Basic

/-!
# Surfaces as JSON

Every part has one JSON form with its fields in a fixed order, and can be read back from it. A
record may also be read from an array of its fields, and a field that may be absent may also be
`null`.
-/

namespace NativeInterface

namespace Ty

def toJson : Ty → Json
  | named name => .obj [("named", .str name)]
  | list element => .obj [("list", element.toJson)]
  | label => .str "label"

def ofJson? : Json → Option Ty
  | .str "label" => some label
  | .obj [("label", .null)] => some label
  | .obj [("named", .str name)] => some (named name)
  | .obj [("list", element)] => (ofJson? element).map list
  | _ => none

end Ty

namespace Param

def toJson (p : Param) : Json := .obj [("name", .str p.name), ("type", p.type.toJson)]

def ofJson? (j : Json) : Option Param :=
  match j.record? ["name", "type"] with
  | some [some name, some type] => return { name := ← name.str?, type := ← Ty.ofJson? type }
  | _ => none

end Param

namespace ResultItem

def toJson (item : ResultItem) : Json :=
  .obj [("label", .ofOption .str item.label), ("name", .str item.name), ("type", item.type.toJson)]

def ofJson? (j : Json) : Option ResultItem :=
  match j.record? ["label", "name", "type"] with
  | some [label, some name, some type] =>
    return {
      label := ← Json.optional? Json.str? label
      name := ← name.str?
      type := ← Ty.ofJson? type }
  | _ => none

end ResultItem

namespace Clause

def toJson (c : Clause) : Json :=
  .obj [("items", .arr (c.items.map (·.toJson))), ("accessor_name", .str c.accessor)]

def ofJson? (j : Json) : Option Clause :=
  match j.record? ["items", "accessor_name"] with
  | some [some items, some accessor] =>
    return { items := ← items.list? ResultItem.ofJson?, accessor := ← accessor.str? }
  | _ => none

end Clause

namespace NativeFunction

def toJson (f : NativeFunction) : Json :=
  .obj [("name", .str f.name), ("arity", .nat f.arity), ("args", .arr (f.params.map (·.toJson))),
    ("results", .arr (f.results.map (·.toJson)))]

def ofJson? (j : Json) : Option NativeFunction :=
  match j.record? ["name", "arity", "args", "results"] with
  | some [some name, some arity, some args, some results] =>
    return { name := ← name.str?, arity := ← arity.natBelow? Json.wordBound,
             params := ← args.list? Param.ofJson?, results := ← results.list? Clause.ofJson? }
  | _ => none

end NativeFunction

namespace Member

def toJson (m : Member) : Json := .obj [("name", .str m.name), ("type", m.type.toJson)]

def ofJson? (j : Json) : Option Member :=
  match j.record? ["name", "type"] with
  | some [some name, some type] => return { name := ← name.str?, type := ← Ty.ofJson? type }
  | _ => none

end Member

namespace Struct

def toJson (s : Struct) : Json :=
  .obj [("alias", .str s.name), ("backing_name", .str s.backing),
    ("fields", .arr (s.members.map (·.toJson)))]

def ofJson? (j : Json) : Option Struct :=
  match j.record? ["alias", "backing_name", "fields"] with
  | some [some name, some backing, some members] =>
    return {
      name := ← name.str?
      backing := ← backing.str?
      members := ← members.list? Member.ofJson? }
  | _ => none

end Struct

namespace Enum

def toJson (e : Enum) : Json :=
  .obj [("alias", .str e.name), ("variants", .arr (e.variants.map .str))]

def ofJson? (j : Json) : Option Enum :=
  match j.record? ["alias", "variants"] with
  | some [some name, some variants] =>
    return { name := ← name.str?, variants := ← variants.list? Json.str? }
  | _ => none

end Enum

def DirtyKind.ofJson? (j : Json) : Option DirtyKind := j.bareCase?.bind DirtyKind.ofText?

namespace DirtyMark

def toJson (d : DirtyMark) : Json :=
  .obj [("function_name", .str d.function), ("arity", .nat d.arity), ("kind", .str d.kind.text)]

def ofJson? (j : Json) : Option DirtyMark :=
  match j.record? ["function_name", "arity", "kind"] with
  | some [some function, some arity, some kind] =>
    return { function := ← function.str?, arity := ← arity.natBelow? Json.wordBound,
             kind := ← DirtyKind.ofJson? kind }
  | _ => none

end DirtyMark

def Hook.ofJson? (j : Json) : Option Hook := j.bareCase?.bind Hook.ofText?

namespace Callback

def toJson (c : Callback) : Json :=
  .obj [("hook", .str c.hook.text), ("function_name", .str c.function)]

def ofJson? (j : Json) : Option Callback :=
  match j.record? ["hook", "function_name"] with
  | some [some hook, some function] =>
    return { hook := ← Hook.ofJson? hook, function := ← function.str? }
  | _ => none

end Callback

namespace Interface

def toJson : Interface → Json
  | single tag => .str tag
  | many tags => .arr (tags.map .str)

def ofJson? : Json → Option Interface
  | .str tag => some (single tag)
  | j => (j.list? Json.str?).map many

end Interface

namespace Surface

def toJson (s : Surface) : Json :=
  .obj [("module", .str s.moduleName), ("interface", .ofOption (·.toJson) s.interface),
    ("state_type", .ofOption .str s.stateType), ("functions", .arr (s.functions.map (·.toJson))),
    ("structs", .arr (s.structs.map (·.toJson))), ("enums", .arr (s.enums.map (·.toJson))),
    ("dirty", .arr (s.dirty.map (·.toJson))), ("callbacks", .arr (s.callbacks.map (·.toJson))),
    ("sends", .ofOption (·.toJson) s.sends)]

/-- The names of the fields in the order in which they are written. -/
def fieldNames : List String :=
  ["module", "interface", "state_type", "functions", "structs", "enums", "dirty", "callbacks",
    "sends"]

def ofJson? (j : Json) : Option Surface :=
  match j.record? fieldNames with
  | some [some moduleName, interface, stateType, some functions, some structs, some enums,
      some dirty,
      some callbacks, sends] =>
    return {
      moduleName := ← moduleName.str?
      interface := ← Json.optional? Interface.ofJson? interface
      stateType := ← Json.optional? Json.str? stateType
      functions := ← functions.list? NativeFunction.ofJson?
      structs := ← structs.list? Struct.ofJson?
      enums := ← enums.list? Enum.ofJson?
      dirty := ← dirty.list? DirtyMark.ofJson?
      callbacks := ← callbacks.list? Callback.ofJson?
      sends := ← Json.optional? Clause.ofJson? sends }
  | _ => none

/-- The text that identifies a surface. -/
def canonical (s : Surface) : String := s.toJson.compact

end Surface

end NativeInterface
