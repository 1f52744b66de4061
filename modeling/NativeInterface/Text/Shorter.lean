/-!
# Shorter texts

A reader takes something from the front of a text. The type of what it leaves says that the text
got shorter, so that reading comes to an end.
-/

namespace NativeInterface.Text

/-- The texts shorter than another one. -/
abbrev Shorter (cs : List Char) := { r : List Char // r.length < cs.length }

/-- What may be left of a text. -/
abbrev Rest (cs : List Char) := { r : List Char // r.length ≤ cs.length }

namespace Shorter

/-- The text behind its first character. -/
def tail {c : Char} {cs : List Char} : Shorter (c :: cs) := ⟨cs, by simp⟩

/-- What is left of a text is left of a longer one too. -/
def behind {c : Char} {cs : List Char} (r : Shorter cs) : Shorter (c :: cs) :=
  ⟨r.val, Nat.lt_succ_of_lt r.property⟩

/-- Take more from what is left. -/
def within {cs : List Char} (r : Shorter cs) (t : Shorter r.val) : Shorter cs :=
  ⟨t.val, Nat.lt_trans t.property r.property⟩

/-- Take perhaps more from what is left. -/
def withRest {cs : List Char} (r : Shorter cs) (t : Rest r.val) : Shorter cs :=
  ⟨t.val, Nat.lt_of_le_of_lt t.property r.property⟩

def toRest {cs : List Char} (r : Shorter cs) : Rest cs := ⟨r.val, Nat.le_of_lt r.property⟩

end Shorter

namespace Rest

def all {cs : List Char} : Rest cs := ⟨cs, Nat.le_refl _⟩

def behind {c : Char} {cs : List Char} (r : Rest cs) : Shorter (c :: cs) :=
  ⟨r.val, Nat.lt_succ_of_le r.property⟩

end Rest

/-- Read a text piece by piece, each from its first character on. -/
def readAll {α : Type} (read : Char → (cs : List Char) → α × Rest cs) (cs : List Char) : List α :=
  match cs with
  | [] => []
  | c :: cs =>
    let (a, r) := read c cs
    a :: readAll read r.val
termination_by cs.length
decreasing_by exact r.behind.property

end NativeInterface.Text
