import NativeInterface.Text.Words

/-!
# Writing C line by line

C text is written in steps: a line at the current indentation, a blank line, the opening or closing
of a block, or a line at column zero. Each open block indents by two blanks.
-/

namespace NativeInterface.C

/-- One step of writing. -/
inductive Step where
  | line (text : String)
  | blank
  /-- `head {`, and indent. -/
  | openBlock (head : String)
  /-- Dedent, and `}` with what follows it. -/
  | closeBlock (tail : String)
  /-- A line at column zero. -/
  | raw (text : String)
  deriving DecidableEq, Repr, Inhabited

/-- The blanks in front of a line inside so many blocks. -/
def margin (indent : Nat) : String := String.ofList (List.replicate (2 * indent) ' ')

/-- An indented line; an empty line is not indented. -/
def lineText (indent : Nat) (text : String) : String :=
  if text.isEmpty then "\n" else margin indent ++ text ++ "\n"

namespace Step

/-- The text that a step writes inside so many blocks. -/
def output (indent : Nat) : Step → String
  | line text => lineText indent text
  | blank => "\n"
  | openBlock head => lineText indent (if head.isEmpty then "\x7b" else head ++ " \x7b")
  | closeBlock tail => lineText (indent - 1) ("\x7d" ++ tail)
  | raw text => text ++ "\n"

/-- The number of open blocks behind a step. -/
def indentAfter (indent : Nat) : Step → Nat
  | openBlock _ => indent + 1
  | closeBlock _ => indent - 1
  | _ => indent

end Step

/-- The text written so far, and the number of open blocks. -/
structure Writer where
  text : String := ""
  indent : Nat := 0
  deriving DecidableEq, Repr, Inhabited

/-- Take one step. -/
def Writer.write (w : Writer) (s : Step) : Writer :=
  ⟨w.text ++ s.output w.indent, s.indentAfter w.indent⟩

/-- The text of a list of steps. -/
def render (steps : List Step) : String := (steps.foldl Writer.write {}).text

/-- Steps inside a block, with something behind its closing brace. -/
def blockWith (head : String) (body : List Step) (tail : String) : List Step :=
  .openBlock head :: body ++ [.closeBlock tail]

/-- Steps inside a block. -/
def block (head : String) (body : List Step) : List Step := blockWith head body ""

/-- Steps for each place of a list of some length; `n` tells the loop variables of a function apart.
-/
def loop (n length : String) (body : List Step) : List Step :=
  block ("for (unsigned int i_" ++ n ++ " = 0; i_" ++ n ++ " < " ++ length ++ "; i_" ++ n ++ "++)")
    body

end NativeInterface.C
