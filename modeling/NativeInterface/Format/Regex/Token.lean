import NativeInterface.Format.Regex.Bracket
import NativeInterface.Text.Words

/-!
# Tokens of regular expressions

There are two forms. In the basic one, an operator such as `\(` has a backslash in front, and stands
for itself without it; in the extended one it is the other way round.
-/

namespace NativeInterface.Format.Regex

open Text (Shorter Rest)

inductive Token where
  | single (s : Single)
  /-- Members of brackets, perhaps of all characters but them. -/
  | bracket (outside : Bool) (ms : List Member)
  | edge (e : Edge)
  | back (number : Nat)
  | opening
  | closing
  | bar
  /-- A repetition written as one character. -/
  | repeated (c : Char) (least : Nat) (most : Option Nat)
  | interval (least : Nat) (most : Option Nat)
  deriving DecidableEq, Repr, Inhabited

/-- How a number in an interval ends. -/
inductive Stop where
  | comma
  | close
  | finish
  deriving DecidableEq, Repr, Inhabited

/-- The text of a number in an interval. -/
def field (extended : Bool) : (cs : List Char) → (List Char × Stop) × Rest cs
  | [] => (([], .finish), .all)
  | ',' :: cs => (([], .comma), ⟨cs, by simp⟩)
  | '\\' :: c :: cs =>
    if c = '\x7d' && !extended then (([], .close), ⟨cs, by simp; omega⟩)
    else
      let ((text, stop), r) := field extended cs
      (('\\' :: c :: text, stop), ⟨r.val, by have := r.property; simp; omega⟩)
  | c :: cs =>
    if c = '\x7d' && extended then (([], .close), ⟨cs, by simp⟩)
    else
      let ((text, stop), r) := field extended cs
      ((c :: text, stop), ⟨r.val, by have := r.property; simp; omega⟩)

/-- The most repetitions that an interval may ask for. -/
def repetitionLimit : Nat := 0x7fff

/-- An interval behind its opening. -/
def interval (extended : Bool) (cs : List Char) : Except RegexError (Token × Rest cs) :=
  let ((first, stop), r) := field extended cs
  let wrong : Stop → RegexError := fun s => if s = .finish then .openInterval else .badInterval
  if stop = .finish || first.any (!·.isDigit) then .error (wrong stop)
  else if first.isEmpty && stop = .close then .error .badInterval
  else
    let least := (Text.readDecimal first).getD 0
    if stop = .close then check least (some least) r
    else
      let ((second, stop), t) := field extended r.val
      if stop = .finish || second.any (!·.isDigit) then .error (wrong stop)
      else if stop = .comma then .error .badInterval
      else check least (Text.readDecimal second) ⟨t.val, Nat.le_trans t.property r.property⟩
where
  check (least : Nat) (most : Option Nat) (r : Rest cs) : Except RegexError (Token × Rest cs) :=
    if most.any (· < least) then .error .badInterval
    else if repetitionLimit < most.getD least then .error .tooBig
    else .ok (.interval least most, r)

/-- What the last thing in a branch is, as far as a repetition cares. -/
inductive Prior where
  | nothing
  | edge
  | atom
  | repeated
  deriving DecidableEq, Repr, Inhabited

/-- Whether there is something to repeat. -/
def Prior.isRepeatable (p : Prior) : Bool := p = .atom || p = .repeated

/-- The operator that a character is, with a backslash or without it as the form has it. The basic
form refuses an interval behind another repetition. -/
def operator? (extended : Bool) (prior : Prior) (c : Char) (cs : List Char) :
    Option (Except RegexError (Token × Rest cs)) :=
  match c with
  | '(' => some (.ok (.opening, .all))
  | ')' => some (.ok (.closing, .all))
  | '|' => some (.ok (.bar, .all))
  | '+' => some (.ok (.repeated '+' 1 none, .all))
  | '?' => some (.ok (.repeated '?' 0 (some 1), .all))
  | '\x7b' =>
    some (if prior = .atom || (extended && prior = .repeated) then interval extended cs
      else .error .badRepetition)
  | _ => none

/-- What a character behind a backslash stands for in both forms. -/
def escape : Char → Token
  | '<' => .edge .wordStart
  | '>' => .edge .wordEnd
  | 'b' => .edge .word
  | 'B' => .edge .notWord
  | '\x60' => .edge .textStart
  | '\'' => .edge .textEnd
  | 'w' => .single (.among false wordRanges)
  | 'W' => .single (.among true wordRanges)
  | 's' => .single (.among false spaceRanges)
  | 'S' => .single (.among true spaceRanges)
  | c =>
    if c.isDigit && c ≠ '0' then .back (c.toNat - '0'.toNat) else .single (.char c)

/-- Whether a dollar in front of this text stands at the end of an expression or of a branch. -/
def endsBranch : List Char → Bool
  | [] => true
  | '\\' :: ')' :: _ => true
  | '\\' :: '|' :: _ => true
  | _ => false

/-- The token in front of a text, which can depend on what stands before it. -/
def token (extended : Bool) (prior : Prior) : Reader Token
  | [] => .error .malformed
  | ['\\'] => .error .trailingBackslash
  | '\\' :: c :: cs =>
    match if extended then none else operator? extended prior c cs with
    | some read => read.map fun (t, r) => (t, r.behind.behind)
    | none => .ok (escape c, Shorter.behind .tail)
  | '[' :: cs => (bracket cs).map fun ((outside, ms), r) => (.bracket outside ms, r.behind)
  | '.' :: _ => .ok (.single .any, .tail)
  | '*' :: _ => .ok (.repeated '*' 0 none, .tail)
  | '^' :: _ =>
    .ok (if extended || prior = .nothing then .edge .lineStart else .single (.char '^'), .tail)
  | '$' :: cs =>
    .ok (if extended || endsBranch cs then .edge .lineEnd else .single (.char '$'), .tail)
  | c :: cs =>
    match if extended then operator? extended prior c cs else none with
    | some read => read.map fun (t, r) => (t, r.behind)
    | none => .ok (.single (.char c), .tail)

end NativeInterface.Format.Regex
