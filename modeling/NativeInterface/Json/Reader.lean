import NativeInterface.Json.Basic
import NativeInterface.Text.Shorter

/-!
# Reading JSON

The whole text must be one value, with blanks allowed around every part. Values nest at most
`Json.maxNesting` levels deep.
-/

namespace NativeInterface.Json

open Text (Shorter Rest)

/-- The deepest nesting of arrays and objects. -/
def maxNesting : Nat := 127

/-- A reader of something in front of a text, with the rest. -/
abbrev Reader (α : Type) := (cs : List Char) → Option (α × Shorter cs)

def isSpace (c : Char) : Bool := c = ' ' || c = '\t' || c = '\n' || c = '\r'

/-- The first character behind blanks, with the rest. -/
def next : Reader Char
  | [] => none
  | c :: cs =>
    if isSpace c then (next cs).map fun (d, r) => (d, r.behind) else some (c, .tail)

/-- Four hexadecimal digits. -/
def hex4 : Reader Nat
  | a :: b :: c :: d :: _ => do
    let a ← Text.hexDigit? a
    let b ← Text.hexDigit? b
    let c ← Text.hexDigit? c
    let d ← Text.hexDigit? d
    some (((a * 16 + b) * 16 + c) * 16 + d, Shorter.tail.behind.behind.behind)
  | _ => none

/-- The character of an escape behind `\u`: one code unit, or a surrogate pair. -/
def unicodeEscape : Reader Char := fun cs => do
  let (hi, r) ← hex4 cs
  if 0xd800 ≤ hi ∧ hi < 0xdc00 then
    match h : r.val with
    | '\\' :: 'u' :: rest => do
      let (lo, t) ← hex4 rest
      if 0xdc00 ≤ lo ∧ lo < 0xe000 then
        some (Char.ofNat (0x10000 + (hi - 0xd800) * 0x400 + (lo - 0xdc00)),
          r.within (h ▸ t.behind.behind))
      else none
    | _ => none
  else if 0xdc00 ≤ hi ∧ hi < 0xe000 then none
  else some (Char.ofNat hi, r)

/-- The character that a letter stands for behind a backslash. -/
def escaped? : Char → Option Char
  | '"' => some '"'
  | '\\' => some '\\'
  | '/' => some '/'
  | 'b' => some '\x08'
  | 'f' => some '\x0c'
  | 'n' => some '\n'
  | 'r' => some '\r'
  | 't' => some '\t'
  | _ => none

/-- The character of an escape behind its backslash. -/
def escape : Reader Char
  | [] => none
  | c :: cs =>
    if c = 'u' then (unicodeEscape cs).map fun (d, r) => (d, r.behind)
    else (escaped? c).map fun d => (d, .tail)

/-- A string behind its opening quote. -/
def stringBody (cs : List Char) : Option (List Char × Shorter cs) :=
  match cs with
  | [] => none
  | '"' :: _ => some ([], .tail)
  | '\\' :: rest => do
    let (c, tail) ← escape rest
    let (s, r) ← stringBody tail
    some (c :: s, (tail.within r).behind)
  | c :: rest =>
    if c.toNat < 0x20 then none
    else do
      let (s, r) ← stringBody rest
      some (c :: s, r.behind)
termination_by cs.length
decreasing_by
  · exact tail.behind.property
  · exact Shorter.tail.property

/-- A fraction: a point and at least one digit. Absent, it is empty. -/
def fraction : List Char → Option (List Char)
  | '.' :: cs =>
    let digits := cs.takeWhile Char.isDigit
    if digits.isEmpty then none else some ('.' :: digits)
  | _ => some []

/-- An exponent: a mark, perhaps a sign, and at least one digit. Absent, it is empty. -/
def exponent : List Char → Option (List Char)
  | c :: cs =>
    if c = 'e' || c = 'E' then
      let sign := cs.take 1 |>.filter fun c => c = '+' || c = '-'
      let digits := (cs.drop sign.length).takeWhile Char.isDigit
      if digits.isEmpty then none else some (c :: sign ++ digits)
    else some []
  | [] => some []

/-- The whole part of a number: a zero alone, or all the digits in front. -/
def wholePart : List Char → List Char
  | '0' :: _ => ['0']
  | cs => cs.takeWhile Char.isDigit

/-- The text of the number in front: its sign, its whole part, and its fraction with the exponent.
-/
def numberText (cs : List Char) : Option (List Char × List Char × List Char) := do
  let sign := cs.take 1 |>.filter (· = '-')
  let rest := cs.drop sign.length
  let whole := wholePart rest
  if whole.isEmpty then none
  else
    let rest := rest.drop whole.length
    let frac ← fraction rest
    let exp ← exponent (rest.drop frac.length)
    some (sign, whole, frac ++ exp)

/-- The number that starts with a character, which is passed. -/
def number (c : Char) (cs : List Char) : Option (Json × Rest cs) := do
  let (sign, whole, tail) ← numberText (c :: cs)
  let n ← Text.readDecimal whole
  let rest : Rest cs := ⟨cs.drop (sign.length + whole.length + tail.length - 1), by simp⟩
  if tail.isEmpty ∧ (sign.isEmpty ∨ n ≠ 0) then
    some (int (if sign.isEmpty then n else -n), rest)
  else some (real (String.ofList (sign ++ whole ++ tail)), rest)

/-- The value that a word spells, if the text starts with it. -/
def word (w : List Char) (j : Json) (cs : List Char) : Option (Json × Rest cs) :=
  if w.isPrefixOf cs then some (j, ⟨cs.drop w.length, by simp⟩) else none

/-- The value that starts with a character, which is passed, and is neither an array nor an object.
-/
def scalar (c : Char) (cs : List Char) : Option (Json × Rest cs) :=
  if c = '"' then (stringBody cs).map fun (s, t) => (str (String.ofList s), t.toRest)
  else if c = 't' then word ['r', 'u', 'e'] (bool true) cs
  else if c = 'f' then word ['a', 'l', 's', 'e'] (bool false) cs
  else if c = 'n' then word ['u', 'l', 'l'] null cs
  else number c cs

/-- One or more items with commas between them, and the closing mark behind them. -/
def items {α : Type} (close : Char) (item : Reader α) (cs : List Char) :
    Option (List α × Shorter cs) := do
  let (a, r) ← item cs
  let (c, s) ← next r
  if c = ',' then do
    let (rest, t) ← items close item s
    some (a :: rest, (r.within s).within t)
  else if c = close then some ([a], r.within s)
  else none
termination_by cs.length
decreasing_by exact (r.within s).property

/-- What an array or an object holds, behind its opening mark. -/
def group {α : Type} (close : Char) (item : Reader α) : Reader (List α) := fun cs => do
  let (c, r) ← next cs
  if c = close then some ([], r) else items close item cs

/-- A name and its value. -/
def member (value : Reader Json) (cs : List Char) : Option ((String × Json) × Shorter cs) := do
  let (quote, a) ← next cs
  if quote = '"' then do
    let (name, b) ← stringBody a
    let (colon, c) ← next b
    if colon = ':' then do
      let (j, d) ← value c
      some ((String.ofList name, j), ((a.within b).within c).within d)
    else none
  else none

/-- A value with at most so many levels of arrays and objects. -/
def value : Nat → Reader Json
  | 0, cs => do
    let (c, r) ← next cs
    if c = '[' || c = '\x7b' then none else (scalar c r).map fun (j, t) => (j, r.withRest t)
  | level + 1, cs => do
    let (c, r) ← next cs
    if c = '[' then (group ']' (value level) r).map fun (js, t) => (arr js, r.within t)
    else if c = '\x7b' then
      (group '\x7d' (member (value level)) r).map fun (ms, t) => (obj ms, r.within t)
    else (scalar c r).map fun (j, t) => (j, r.withRest t)

/-- The value that a text spells. -/
def read? (text : String) : Option Json := do
  let (j, r) ← value maxNesting text.toList
  if r.val.all isSpace then some j else none

end NativeInterface.Json
