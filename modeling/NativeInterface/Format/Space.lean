/-!
# Text in lines

Lines as an editor takes them in and puts them out. The last line of a text may lack its end.
-/

namespace NativeInterface.Format

/-- A line, or several of them, as the editor holds them. -/
structure Space where
  text : List Char := []
  /-- A line feed follows it. -/
  isEnded : Bool := true
  deriving DecidableEq, Repr, Inhabited

/-- What has been put out. -/
structure Sink where
  /-- The last chunk first. -/
  chunks : List (List Char) := []
  /-- The last line lacks its line feed. -/
  isOpen : Bool := false
  deriving DecidableEq, Repr, Inhabited

namespace Sink

def text (s : Sink) : List Char := s.chunks.reverse.flatten

/-- End the last line with a delimiter. -/
def close (s : Sink) (delimiter : Char) : Sink :=
  if s.isOpen then { chunks := [delimiter] :: s.chunks } else s

def add (s : Sink) (delimiter : Char) (text : List Char) : Sink :=
  let s := s.close delimiter
  { s with chunks := text :: s.chunks }

def addSpace (s : Sink) (delimiter : Char) (space : Space) : Sink :=
  let s := s.add delimiter space.text
  if space.isEnded then { s with chunks := [delimiter] :: s.chunks } else { s with isOpen := true }

end Sink

namespace Space

/-- The lines of a text. -/
def ofText (delimiter : Char) : List Char → List Space
  | [] => []
  | c :: cs =>
    if c = delimiter then {} :: ofText delimiter cs
    else match ofText delimiter cs with
      | [] => [⟨[c], false⟩]
      | space :: more => { space with text := c :: space.text } :: more

/-- The text up to the first line feed, and what follows it. -/
def firstLine (delimiter : Char) (text : List Char) : List Char × Option (List Char) :=
  let line := text.takeWhile (· ≠ delimiter)
  (line, (text.drop line.length).tail?)

/-- Two texts with a delimiter between them; the second one says what follows. -/
def join (delimiter : Char) (a b : Space) : Space :=
  { b with text := a.text ++ delimiter :: b.text }

/-- Lines, each with its end. -/
def unlines (delimiter : Char) (lines : List (List Char)) : List Char :=
  lines.flatMap fun line => line ++ [delimiter]

end Space

end NativeInterface.Format
