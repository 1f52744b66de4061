import NativeInterface.Text.Words

/-!
# Positions and spans

Lines count from one, columns count the bytes of a line from one. The end of a span is inclusive.
-/

namespace NativeInterface

/-- A place in a source text. -/
structure Position where
  line : Nat
  column : Nat
  deriving DecidableEq, Repr, Inhabited

/-- The first place of every text. -/
def Position.start : Position := ⟨1, 1⟩

/-- The place behind one character. -/
def Position.next (p : Position) (c : Char) : Position :=
  if c = '\n' then ⟨p.line + 1, 1⟩ else ⟨p.line, p.column + c.utf8Size⟩

/-- The place behind a text. -/
def Position.after (p : Position) (text : List Char) : Position := text.foldl Position.next p

/-- A stretch of source text from its first to its last column. -/
structure Span where
  startLine : Nat := 0
  startColumn : Nat := 0
  endLine : Nat := 0
  endColumn : Nat := 0
  deriving DecidableEq, Repr, Inhabited

namespace Span

/-- The span at one position. -/
def point (line column : Nat) : Span := ⟨line, column, line, column⟩

/-- The span of a text that starts at `a` and ends before `b`. -/
def between (a b : Position) : Span := ⟨a.line, a.column, b.line, max (b.column - 1) 1⟩

/-- Line by line, then column by column. -/
def before (a b : Nat × Nat) : Bool := a.1 < b.1 || (a.1 == b.1 && a.2 ≤ b.2)

/-- The smallest span that covers both. -/
def merge (a b : Span) : Span :=
  let first := (a.startLine, a.startColumn)
  let first' := (b.startLine, b.startColumn)
  let last := (a.endLine, a.endColumn)
  let last' := (b.endLine, b.endColumn)
  let lo := if before first first' then first else first'
  let hi := if before last' last then last else last'
  ⟨lo.1, lo.2, hi.1, hi.2⟩

/-- A span is shown by its start. -/
def text (s : Span) : String := Text.decimal s.startLine ++ ":" ++ Text.decimal s.startColumn

end Span

/-- Something found at a place of the source. -/
structure Located (α : Type) where
  cause : α
  span : Span
  deriving DecidableEq, Repr, Inhabited

end NativeInterface
