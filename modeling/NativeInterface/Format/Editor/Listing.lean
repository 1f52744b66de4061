/-!
# Listings

A text with its special characters written out, in lines of a bounded width.
-/

namespace NativeInterface.Format.Editor

/-- How a character is written out. -/
def spelled (c : Char) : List Char :=
  match c with
  | '\\' => ['\\', '\\']
  | '\x07' => ['\\', 'a']
  | '\x08' => ['\\', 'b']
  | '\x0c' => ['\\', 'f']
  | '\n' => ['\\', 'n']
  | '\r' => ['\\', 'r']
  | '\t' => ['\\', 't']
  | '\x0b' => ['\\', 'v']
  | c =>
    if ' ' ≤ c && c ≤ '~' then [c]
    else
      let digit (n : Nat) : Char := Char.ofNat ('0'.toNat + n % 8)
      ['\\', digit (c.toNat / 64), digit (c.toNat / 8), digit c.toNat]

/-- Characters written out in lines with room for so many, of which some have been used. -/
def listing (delimiter : Char) (room used : Nat) : List Char → List Char
  | [] => ['$', delimiter]
  | c :: cs =>
    let text := spelled c
    if 0 < room && room < used + text.length then
      ['\\', delimiter] ++ text ++ listing delimiter room text.length cs
    else text ++ listing delimiter room (used + text.length) cs

end NativeInterface.Format.Editor
