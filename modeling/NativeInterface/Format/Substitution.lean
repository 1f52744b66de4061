import NativeInterface.Format.Regex

/-!
# Substitutions

A substitution puts a text in the place of a match: of the first one in a line, of the one with a
given number, or of all of them from there on. The text can have parts of the match in it, and can
change their case.
-/

namespace NativeInterface.Format

/-- What is done to the case of letters. -/
inductive Casing where
  | keep
  | upper
  | lower
  deriving DecidableEq, Repr, Inhabited

def Casing.char : Casing → Char → Char
  | keep, c => c
  | upper, c => c.toUpper
  | lower, c => c.toLower

/-- A piece of what is put in the place of a match. -/
inductive Piece where
  | char (c : Char)
  /-- The text of a group; the whole match is group zero. -/
  | group (number : Nat)
  /-- From here on letters have this case. -/
  | casing (case : Casing)
  /-- The next letter has this case. -/
  | once (case : Casing)
  deriving DecidableEq, Repr, Inhabited

namespace Piece

/-- How letters are written. -/
structure Style where
  all : Casing := .keep
  /-- Goes before `all` for one letter. -/
  next : Option Casing := none
  deriving DecidableEq, Repr, Inhabited

/-- A text in a style, and the style behind it. -/
def styled (style : Style) : List Char → List Char × Style
  | [] => ([], style)
  | c :: cs =>
    let first := (style.next.getD style.all).char c
    (first :: cs.map style.all.char, { style with next := none })

/-- The text of pieces for a match. -/
def expand (m : Pattern.Match) (style : Style) : List Piece → List Char
  | [] => []
  | .char c :: ps =>
    let (text, style) := styled style [c]
    text ++ expand m style ps
  | .group number :: ps =>
    let (text, style) := styled style (m.group number)
    text ++ expand m style ps
  | .casing case :: ps => expand m { all := case } ps
  | .once case :: ps => expand m { style with next := some case } ps

/-- The highest number of a group. -/
def groups (ps : List Piece) : Nat :=
  (ps.map fun
    | .group number => number
    | _ => 0).foldl max 0

end Piece

structure Substitution where
  /-- The last pattern that was looked for, if there is none. -/
  pattern : Option Pattern
  pieces : List Piece
  /-- The number of the first match to be replaced. -/
  first : Nat := 1
  /-- Whether the matches behind it are replaced too. -/
  isGlobal : Bool := false
  /-- Whether a changed text is printed. -/
  prints : Bool := false
  /-- Where a changed text is written. -/
  path : Option String := none
  deriving DecidableEq, Repr, Inhabited

namespace Substitution

/-- Whether the match with this number is replaced. -/
def replaces (s : Substitution) (number : Nat) : Bool :=
  number = s.first || (s.isGlobal && s.first < number)

/-- What stands in the place of the match with this number. -/
def output (s : Substitution) (number : Nat) (m : Pattern.Match) : List Char :=
  if s.replaces number then Piece.expand m {} s.pieces else m.group 0

/-- The rest of a text with its matches replaced, and how many matches there are, when `count` have
been found before. No empty match stands directly behind another match. -/
def go (s : Substitution) (p : Pattern) (behindMatch : Bool) (count : Nat)
    (behind ahead : List Char) : List Char × Nat :=
  match p.at? behind ahead, ahead with
  | none, [] => ([], count)
  | none, c :: rest =>
    let (text, n) := s.go p false count (c :: behind) rest
    (c :: text, n)
  | some m, [] => if behindMatch then ([], count) else (s.output (count + 1) m, count + 1)
  | some m, c :: rest =>
    match m.group 0 with
    | [] =>
      if behindMatch then
        let (text, n) := s.go p false count (c :: behind) rest
        (c :: text, n)
      else
        let (text, n) := s.go p false (count + 1) (c :: behind) rest
        (s.output (count + 1) m ++ c :: text, n)
    | _ :: more =>
      let (text, n) := s.go p true (count + 1) m.stop.behind (rest.drop more.length)
      (s.output (count + 1) m ++ text, n)
termination_by ahead.length

/-- A text with its matches replaced, if one of them is. -/
def edited? (s : Substitution) (p : Pattern) (text : List Char) : Option (List Char) :=
  let (changed, count) := s.go p false 0 [] text
  if s.first ≤ count then some changed else none

end Substitution

end NativeInterface.Format
