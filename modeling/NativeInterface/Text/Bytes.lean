/-!
# Bytes as characters

A program that knows nothing of encodings sees each byte as a character.
-/

namespace NativeInterface.Text

/-- Each byte as the character with its number. -/
def ofBytes (bytes : List UInt8) : List Char := bytes.map fun b => Char.ofNat b.toNat

/-- The bytes whose characters these are. -/
def toBytes (cs : List Char) : List UInt8 := cs.map fun c => c.toNat.toUInt8

/-- The bytes of a text, each as a character. -/
def byteChars (s : String) : List Char := ofBytes s.toUTF8.data.toList

/-- The text that bytes encode, when they are seen as characters. If they encode none, those that
stand for nothing alone are shown as U+FFFD. -/
def ofByteChars (cs : List Char) : String :=
  match String.fromUTF8? ⟨(toBytes cs).toArray⟩ with
  | some text => text
  | none => String.ofList (cs.map fun c => if c.toNat < 0x80 then c else '\ufffd')

end NativeInterface.Text
