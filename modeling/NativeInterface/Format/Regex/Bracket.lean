import NativeInterface.Format.Regex
import NativeInterface.Text.Shorter

/-!
# Brackets in regular expressions

Characters, ranges and classes with names between brackets, and what can be wrong with them or with
the rest of an expression.
-/

namespace NativeInterface.Format

open Text (Shorter)

/-- Why a text is no regular expression. -/
inductive RegexError where
  | malformed
  | openBracket
  | openGroup
  | closedGroup
  | openInterval
  | badInterval
  | badRepetition
  | badRange
  | badClass
  | badElement
  | badReference
  | tooBig
  | trailingBackslash
  /-- A class with a name that lacks its outer brackets. -/
  | bareClass
  deriving DecidableEq, Repr, Inhabited

def RegexError.text : RegexError → String
  | malformed => "Invalid regular expression"
  | openBracket => "Unmatched [, [^, [:, [., or [="
  | openGroup => "Unmatched ( or \\("
  | closedGroup => "Unmatched ) or \\)"
  | openInterval => "Unmatched \\\x7b"
  | badInterval => "Invalid content of \\\x7b\\\x7d"
  | badRepetition => "Invalid preceding regular expression"
  | badRange => "Invalid range end"
  | badClass => "Invalid character class name"
  | badElement => "Invalid collation character"
  | badReference => "Invalid back reference"
  | tooBig => "Regular expression too big"
  | trailingBackslash => "Trailing backslash"
  | bareClass => "character class syntax is [[:space:]], not [:space:]"

namespace Regex

/-- A reader of something in front of a text, with the rest. -/
abbrev Reader (α : Type) := (cs : List Char) → Except RegexError (α × Shorter cs)

def alphaRanges : List (Char × Char) := [('A', 'Z'), ('a', 'z')]

def digitRanges : List (Char × Char) := [('0', '9')]

def spaceRanges : List (Char × Char) := [('\t', '\r'), (' ', ' ')]

def wordRanges : List (Char × Char) := digitRanges ++ alphaRanges ++ [('_', '_')]

/-- The ranges of a class with a name. -/
def classRanges? : String → Option (List (Char × Char))
  | "alpha" => some alphaRanges
  | "digit" => some digitRanges
  | "alnum" => some (digitRanges ++ alphaRanges)
  | "upper" => some [('A', 'Z')]
  | "lower" => some [('a', 'z')]
  | "space" => some spaceRanges
  | "blank" => some [('\t', '\t'), (' ', ' ')]
  | "punct" => some [('!', '/'), (':', '@'), ('[', '\x60'), ('\x7b', '~')]
  | "print" => some [(' ', '~')]
  | "graph" => some [('!', '~')]
  | "cntrl" => some [('\x00', '\x1f'), ('\x7f', '\x7f')]
  | "xdigit" => some [('0', '9'), ('A', 'F'), ('a', 'f')]
  | _ => none

/-- The name up to a mark and a closing bracket. -/
def name (mark : Char) : Reader (List Char)
  | [] => .error .openBracket
  | [_] => .error .openBracket
  | c :: d :: cs =>
    if c = mark && d = ']' then .ok ([], Shorter.behind .tail)
    else do
      let (more, r) ← name mark (d :: cs)
      .ok (c :: more, r.behind)

/-- What stands between brackets. -/
inductive Member where
  | char (c : Char)
  | range (lo hi : Char)
  /-- A class with a name, or a character that cannot be the end of a range. -/
  | ranges (ranges : List (Char × Char))
  deriving DecidableEq, Repr, Inhabited

def Member.toRanges : Member → List (Char × Char)
  | char c => [(c, c)]
  | range lo hi => [(lo, hi)]
  | ranges rs => rs

/-- A member that is not written as a range. -/
def element : Reader Member
  | [] => .error .openBracket
  | '[' :: '.' :: cs => do
    match ← name '.' cs with
    | ([c], r) => .ok (.char c, r.behind.behind)
    | _ => .error .badElement
  | '[' :: '=' :: cs => do
    match ← name '=' cs with
    | ([c], r) => .ok (.ranges [(c, c)], r.behind.behind)
    | _ => .error .badElement
  | '[' :: ':' :: cs => do
    let (text, r) ← name ':' cs
    match classRanges? (String.ofList text) with
    | some ranges => .ok (.ranges ranges, r.behind.behind)
    | none => .error .badClass
  | c :: _ => .ok (.char c, .tail)

/-- A range from a member on, whose end is read. -/
def rangeFrom (lo hi : Member) : Except RegexError Member :=
  match lo, hi with
  | .char lo, .char hi => if lo ≤ hi then .ok (.range lo hi) else .error .badRange
  | _, _ => .error .badRange

/-- A member. A hyphen is one only where it cannot be read as part of a range. -/
def member (isFirst : Bool) (cs : List Char) : Except RegexError (Member × Shorter cs) := do
  let (lo, r) ← element cs
  if cs.head? = some '-' && !isFirst && r.val.head? ≠ some ']' then .error .badRange
  else match h : r.val with
    | '-' :: ']' :: _ => .ok (lo, r)
    | '-' :: rest =>
      let (hi, t) ← element rest
      .ok (← rangeFrom lo hi, r.within (h ▸ t.behind))
    | _ => .ok (lo, r)

/-- The members up to the closing bracket. -/
def members (isFirst : Bool) (cs : List Char) : Except RegexError (List Member × Shorter cs) :=
  match cs with
  | [] => .error .openBracket
  | c :: rest =>
    if c = ']' && !isFirst then .ok ([], .tail)
    else do
      let (m, r) ← member isFirst (c :: rest)
      let (ms, t) ← members false r.val
      .ok (m :: ms, r.within t)
termination_by cs.length
decreasing_by exact r.property

/-- Whether members look like a class with a name, but for its outer brackets. -/
def looksBare (ms : List Member) : Bool :=
  ms.head? = some (.char ':') && ms.getLast? = some (.char ':') && ms.any (· ≠ .char ':')
    && ms.all fun m => match m with
      | .char _ => true
      | _ => false

/-- What stands between a bracket that has been read and the closing one. -/
def bracket (cs : List Char) : Except RegexError ((Bool × List Member) × Shorter cs) :=
  match cs with
  | [] | ['^'] => .error .malformed
  | '^' :: rest => do
    let (ms, r) ← members true rest
    .ok ((true, ms), r.behind)
  | c :: rest => do
    let (ms, r) ← members true (c :: rest)
    .ok ((false, ms), r)

end Regex

end NativeInterface.Format
