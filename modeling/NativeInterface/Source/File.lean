import NativeInterface.Source.Span

/-!
# Source files

A named text and its lines. A line ends before its line feed, and carriage returns at its end are
not shown.
-/

namespace NativeInterface

/-- A spec file held in memory. -/
structure SourceFile where
  name : String
  text : String
  deriving DecidableEq, Repr, Inhabited

namespace SourceFile

/-- The texts between line feeds. -/
def rawLines (f : SourceFile) : List (List Char) := Text.splitOn '\n' f.text.toList

/-- One more than the number of line feeds. -/
def lineCount (f : SourceFile) : Nat := f.rawLines.length

/-- The text of a line, counted from one, without carriage returns at its end. -/
def line? (f : SourceFile) : Nat → Option String
  | 0 => none
  | n + 1 => f.rawLines[n]?.map fun l => String.ofList (l.reverse.dropWhile (· = '\r')).reverse

/-- The line shown beside a message; empty when there is no such line. -/
def context (f : SourceFile) (n : Nat) : String := (f.line? n).getD ""

end SourceFile

end NativeInterface
