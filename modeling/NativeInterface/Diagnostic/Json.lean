import NativeInterface.Diagnostic
import NativeInterface.Json.Writer

/-!
# Diagnostics as JSON

The fields of a span stand among those of its diagnostic, so a diagnostic is always an object. A
suggestion is written only when there is one.
-/

namespace NativeInterface

namespace Span

/-- Lines and columns are below this. -/
def bound : Nat := 0x100000000

def fields (s : Span) : List (String × Json) :=
  [("line", .nat s.startLine), ("column", .nat s.startColumn), ("end_line", .nat s.endLine),
    ("end_column", .nat s.endColumn)]

def toJson (s : Span) : Json := .obj s.fields

def ofJson? (j : Json) : Option Span :=
  match j.record? ["line", "column", "end_line", "end_column"] with
  | some [some startLine, some startColumn, some endLine, some endColumn] =>
    return { startLine := ← startLine.natBelow? bound, startColumn := ← startColumn.natBelow? bound,
             endLine := ← endLine.natBelow? bound, endColumn := ← endColumn.natBelow? bound }
  | _ => none

end Span

namespace Code

/-- Codes are below this. -/
def bound : Nat := 0x10000

end Code

def Category.ofJson? (j : Json) : Option Category := j.bareCase?.bind Category.ofText?

namespace Diagnostic

def toJson (d : Diagnostic) : Json :=
  .obj ([("file", .str d.file), ("code", .nat d.code), ("category", .str d.category.text),
      ("message", .str d.message)]
    ++ d.span.fields
    ++ [("source_line", .str d.sourceLine)]
    ++ d.suggestion.toList.map fun text => ("suggestion", .str text))

def ofJson? : Json → Option Diagnostic
  | .arr _ => none
  | j => return {
      file := ← (← j.field? "file").str?
      code := ← (← j.field? "code").natBelow? Code.bound
      category := ← Category.ofJson? (← j.field? "category")
      message := ← (← j.field? "message").str?
      span := ← Span.ofJson? j
      sourceLine := ← (← j.field? "source_line").str?
      suggestion := ← Json.optional? Json.str? (j.field? "suggestion") }

end Diagnostic

namespace Diagnostics

def toJson (ds : Diagnostics) : Json :=
  .obj [("errors", .arr (ds.stored.map (·.toJson))), ("total_errors", .nat ds.total)]

def ofJson? (j : Json) : Option Diagnostics :=
  match j.record? ["errors", "total_errors"] with
  | some [some stored, some total] =>
    return {
      stored := ← stored.list? Diagnostic.ofJson?
      total := ← total.natBelow? Json.wordBound }
  | _ => none

end Diagnostics

end NativeInterface
