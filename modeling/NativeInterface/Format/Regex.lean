/-!
# Regular expressions

Expressions over characters, with anchors, groups and references to groups. A match is the leftmost
one, and of those that start there the longest.
-/

namespace NativeInterface.Format

/-- What one character may be. -/
inductive Single where
  | any
  | char (c : Char)
  /-- A character in one of the ranges, or in none of them. -/
  | among (outside : Bool) (ranges : List (Char × Char))
  deriving DecidableEq, Repr, Inhabited

/-- A condition on a place between characters. -/
inductive Edge where
  | lineStart
  | lineEnd
  | textStart
  | textEnd
  | wordStart
  | wordEnd
  /-- The start or the end of a word. -/
  | word
  | notWord
  deriving DecidableEq, Repr, Inhabited

inductive Regex where
  | empty
  | single (s : Single)
  | edge (e : Edge)
  | seq (a b : Regex)
  | alt (a b : Regex)
  /-- No upper bound when there is no `most`. -/
  | times (r : Regex) (least : Nat) (most : Option Nat)
  | group (number : Nat) (r : Regex)
  /-- The text that a group has matched. -/
  | back (number : Nat)
  deriving DecidableEq, Repr, Inhabited

/-- The highest number of a group. -/
def Regex.groups : Regex → Nat
  | empty | single _ | edge _ | back _ => 0
  | seq a b | alt a b => max a.groups b.groups
  | times r _ _ => r.groups
  | group number r => max number r.groups

/-- Whether the text of a group is looked for again. -/
def Regex.hasBack : Regex → Bool
  | empty | single _ | edge _ => false
  | back _ => true
  | seq a b | alt a b => a.hasBack || b.hasBack
  | times r _ _ | group _ r => r.hasBack

/-- An expression and how it is to be matched. -/
structure Pattern where
  regex : Regex
  ignoreCase : Bool := false
  /-- Lines inside the text have a start and an end of their own. -/
  multiline : Bool := false
  deriving DecidableEq, Repr, Inhabited

/-- A place in a text, with what groups have matched so far. -/
structure Spot where
  /-- The characters before it, from the nearest on. -/
  behind : List Char
  ahead : List Char
  /-- How many characters have been passed since the match began. -/
  passed : Nat := 0
  groups : List (Nat × List Char) := []
  deriving DecidableEq, Repr, Inhabited

namespace Spot

/-- The text from a place up to a later one. -/
def upTo (s t : Spot) : List Char := s.ahead.take (t.passed - s.passed)

def group? (s : Spot) (number : Nat) : Option (List Char) := s.groups.lookup number

def setGroup (s : Spot) (number : Nat) (text : List Char) : Spot :=
  { s with groups := (number, text) :: s.groups.filter (·.1 ≠ number) }

/-- The place behind some characters that are ahead. -/
def forward (s : Spot) (n : Nat) : Spot :=
  { s with
    behind := (s.ahead.take n).reverse ++ s.behind
    ahead := s.ahead.drop n
    passed := s.passed + n }

end Spot

def isWordChar (c : Char) : Bool := c.isAlphanum || c = '_'

/-- The other case of a letter. -/
def otherCase (c : Char) : Char := if c.isUpper then c.toLower else c.toUpper

namespace Pattern

def sameChar (p : Pattern) (a b : Char) : Bool := a = b || (p.ignoreCase && otherCase a = b)

def inRanges (ranges : List (Char × Char)) (c : Char) : Bool :=
  ranges.any fun (lo, hi) => lo ≤ c && c ≤ hi

def accepts (p : Pattern) : Single → Char → Bool
  | .any, c => !(p.multiline && c = '\n')
  | .char a, c => p.sameChar a c
  | .among outside ranges, c =>
    let found := inRanges ranges c || (p.ignoreCase && inRanges ranges (otherCase c))
    if outside then !found && !(p.multiline && c = '\n') else found

def holds (p : Pattern) (s : Spot) : Edge → Bool
  | .lineStart => s.behind.isEmpty || (p.multiline && s.behind.head? = some '\n')
  | .lineEnd => s.ahead.isEmpty || (p.multiline && s.ahead.head? = some '\n')
  | .textStart => s.behind.isEmpty
  | .textEnd => s.ahead.isEmpty
  | .wordStart => !before && after
  | .wordEnd => before && !after
  | .word => before != after
  | .notWord => before == after
where
  before : Bool := s.behind.head?.any isWordChar
  after : Bool := s.ahead.head?.any isWordChar

/-- What decides on how matching goes on from a place. -/
structure Key where
  passed : Nat
  groups : List (Nat × List Char)
  deriving DecidableEq, Repr, Inhabited

/-- Groups count only if they are looked for again. -/
def key (p : Pattern) (s : Spot) : Key := ⟨s.passed, if p.regex.hasBack then s.groups else []⟩

/-- The first place for each key. -/
def distinct (p : Pattern) (seen : List Key) : List Spot → List Spot
  | [] => []
  | s :: rest =>
    if seen.contains (p.key s) then p.distinct seen rest
    else s :: p.distinct (p.key s :: seen) rest

/-- A place that repetitions have come to, and how many of them may follow. -/
structure Visit where
  key : Key
  least : Nat
  most : Option Nat
  deriving DecidableEq, Repr, Inhabited

/-- The places behind repetitions of a step, those of the longer first repetition first, but for
what has been visited before. Once there are enough, a repetition has to pass something. -/
def iterate (p : Pattern) (step : Spot → List Spot) :
    Nat → Nat → Option Nat → List Visit → Spot → List Spot × List Visit
  | 0, least, _, seen, s => (if least = 0 then [s] else [], seen)
  | fuel + 1, least, most, seen, s =>
    let visit : Visit := ⟨p.key s, least, most⟩
    if seen.contains visit then ([], seen)
    else
      let next := if most = some 0 then [] else step s
      let next := next.filter fun t => 0 < least || s.passed < t.passed
      let (more, seen) := next.foldl (fun (found, seen) t =>
        let (more, seen) := p.iterate step fuel (least - 1) (most.map (· - 1)) seen t
        (found ++ more, seen)) ([], visit :: seen)
      (if least = 0 then more ++ [s] else more, seen)

/-- The places behind everything that an expression matches from a place on. -/
def ends (p : Pattern) : Regex → Spot → List Spot
  | .empty, s => [s]
  | .single one, s =>
    match s.ahead with
    | [] => []
    | c :: _ => if p.accepts one c then [s.forward 1] else []
  | .edge e, s => if p.holds s e then [s] else []
  | .seq a b, s => p.distinct [] ((p.ends a s).flatMap (p.ends b))
  | .alt a b, s =>
    p.distinct [] ((p.ends a s ++ p.ends b s).mergeSort fun t u => u.passed ≤ t.passed)
  | .times r least most, s => (p.iterate (p.ends r) (least + s.ahead.length + 1) least most [] s).1
  | .group number r, s => (p.ends r s).map fun t => t.setGroup number (s.upTo t)
  | .back number, s =>
    match s.group? number with
    | none => []
    | some text =>
      let found := s.ahead.take text.length
      if found.length = text.length && (found.zip text).all (fun (a, b) => p.sameChar a b) then
        [s.forward text.length]
      else []

/-- The place that is farthest ahead, the first of several. -/
def farthest : List Spot → Option Spot
  | [] => none
  | s :: rest =>
    match farthest rest with
    | none => some s
    | some t => if s.passed < t.passed then some t else some s

/-- Where a match starts and where it ends. -/
structure Match where
  start : Spot
  stop : Spot
  deriving DecidableEq, Repr, Inhabited

/-- The text of a group of a match; the whole match is group zero. -/
def Match.group (m : Match) (number : Nat) : List Char :=
  if number = 0 then m.start.upTo m.stop else (m.stop.group? number).getD []

/-- The longest match at a place. -/
def at? (p : Pattern) (behind ahead : List Char) : Option Match :=
  let s : Spot := { behind, ahead }
  (farthest (p.ends p.regex s)).map fun t => ⟨s, t⟩

/-- Whether there is a match at a place or behind it. -/
def isFrom (p : Pattern) (behind : List Char) : List Char → Bool
  | [] => (p.at? behind []).isSome
  | c :: rest => (p.at? behind (c :: rest)).isSome || p.isFrom (c :: behind) rest

/-- Whether a text has a match. -/
def isIn (p : Pattern) (text : List Char) : Bool := p.isFrom [] text

end Pattern

end NativeInterface.Format
