import NativeInterface.Text.Words

/-!
# JSON values

Values keep the order of their fields. Integers are exact; any other number is kept as it is
written.
-/

namespace NativeInterface

/-- A JSON value. -/
inductive Json where
  | null
  | bool (value : Bool)
  | int (value : Int)
  /-- A number with a fraction or an exponent, or a negative zero. -/
  | real (text : String)
  | str (value : String)
  | arr (items : List Json)
  | obj (fields : List (String × Json))
  deriving Repr, Inhabited

namespace Json

/-- The value of a field; the last one, when a name is repeated. -/
def field? (j : Json) (name : String) : Option Json :=
  match j with
  | obj fields => (fields.reverse.find? (·.1 == name)).map (·.2)
  | _ => none

def str? : Json → Option String
  | str s => some s
  | _ => none

def bool? : Json → Option Bool
  | bool b => some b
  | _ => none

/-- A natural number below the bound. -/
def natBelow? (bound : Nat) : Json → Option Nat
  | int (.ofNat n) => if n < bound then some n else none
  | _ => none

/-- A list whose elements can all be read. -/
def list? {α : Type} (f : Json → Option α) : Json → Option (List α)
  | arr items => items.mapM f
  | _ => none

/-- Absent and `null` both mean nothing; anything else must be readable. -/
def optional? {α : Type} (f : Json → Option α) : Option Json → Option (Option α)
  | none | some null => some none
  | some j => (f j).map some

/-- The fields of a record, by name in an object or by place in an array of just as many elements.
-/
def record? (names : List String) : Json → Option (List (Option Json))
  | obj fields => some (names.map (obj fields).field?)
  | arr items => if items.length = names.length then some (items.map some) else none
  | _ => none

/-- One of several cases: a bare name, or an object whose one field holds what belongs to the case.
-/
def case? : Json → Option (String × Option Json)
  | str name => some (name, none)
  | obj [(name, body)] => some (name, some body)
  | _ => none

/-- A case with nothing in it. -/
def bareCase? (j : Json) : Option String :=
  match j.case? with
  | some (name, none) | some (name, some null) => some name
  | _ => none

/-- Text, or `null` for nothing. -/
def ofOption {α : Type} (f : α → Json) : Option α → Json
  | some a => f a
  | none => null

/-- Counts and arities are numbers of a machine word, below this. -/
def wordBound : Nat := 0x10000000000000000

/-- A natural number. -/
def nat (n : Nat) : Json := int n

end Json

end NativeInterface
