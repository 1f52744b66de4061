import NativeInterface.Text.Shorter
import NativeInterface.Text.Words

/-!
# Escapes in scripts

A letter behind a backslash can stand for a control character, and digits behind such a letter for
the character with their number.
-/

namespace NativeInterface.Format

open Text (Shorter Rest)

/-- The number of a character, of which a byte is kept. -/
def byteChar (n : Nat) : Char := Char.ofNat (n % 256)

/-- At most so many digits of a base in front of a text, with their value and what follows. -/
def digits? (base : Nat) : Nat → (cs : List Char) → Option (Nat × Shorter cs)
  | 0, _ => none
  | _, [] => none
  | most + 1, c :: cs => do
    let d ← Text.hexDigit? c
    if d < base then
      match digits? base most cs with
      | none => some (d, .tail)
      | some (n, r) => some (d * Nat.pow base (cs.length - r.val.length) + n, r.behind)
    else none

/-- The character that a letter stands for. -/
def control? : Char → Option Char
  | 'a' => some '\x07'
  | 'f' => some '\x0c'
  | 'n' => some '\n'
  | 'r' => some '\r'
  | 't' => some '\t'
  | 'v' => some '\x0b'
  | _ => none

/-- The character of a letter with a control key: the letters become the first control characters.
-/
def controlled (c : Char) : Char := byteChar (c.toUpper.toNat ^^^ 0x40)

/-- The character of an escape behind its backslash, if it is one of a control character or of a
number. -/
def escaped? : (cs : List Char) → Option (Char × Shorter cs)
  | [] => none
  | 'c' :: [] => none
  | 'c' :: c :: _ => some (controlled c, Shorter.behind .tail)
  | 'd' :: cs => numbered 10 3 cs
  | 'o' :: cs => numbered 8 3 cs
  | 'x' :: cs => numbered 16 2 cs
  | c :: _ => (control? c).map (·, .tail)
where
  numbered (base most : Nat) {c : Char} (cs : List Char) : Option (Char × Shorter (c :: cs)) :=
    (digits? base most cs).map fun (n, r) => (byteChar n, r.behind)

/-- Read an escape behind its backslash, or one character as it says. A backslash at the end is
kept. -/
def readEscape {α : Type} (escaped : Char → α) (other : Char → α) (cs : List Char) : α × Rest cs :=
  match escaped? cs with
  | some (c, r) => (escaped c, r.toRest)
  | none =>
    match cs with
    | [] => (escaped '\\', .all)
    | c :: _ => (other c, Shorter.tail.toRest)

/-- The text with its escapes replaced; any other character behind a backslash stays there, with
the backslash. -/
def unescape (cs : List Char) : List Char :=
  (Text.readAll (fun c cs =>
    if c = '\\' then readEscape (fun d => [d]) (fun d => ['\\', d]) cs else ([c], .all)) cs).flatten

end NativeInterface.Format
