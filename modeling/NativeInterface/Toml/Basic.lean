/-!
# TOML values
-/

namespace NativeInterface

/-- A TOML value. -/
inductive Toml where
  | str (value : String)
  | int (value : Int)
  /-- A float, as it is written. -/
  | real (text : String)
  | bool (value : Bool)
  /-- A date, a time or both, as it is written. -/
  | date (text : String)
  | arr (items : List Toml)
  | table (entries : List (String × Toml))
  deriving Repr, Inhabited

namespace Toml

def str? : Toml → Option String
  | str s => some s
  | _ => none

/-- A list whose elements can all be read. -/
def list? {α : Type} (f : Toml → Option α) : Toml → Option (List α)
  | arr items => items.mapM f
  | _ => none

/-- The value under a key of a table. -/
def field? (v : Toml) (key : String) : Option Toml :=
  match v with
  | table entries => entries.lookup key
  | _ => none

end Toml

end NativeInterface
