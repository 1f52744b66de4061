import NativeInterface.Record.Basic

/-!
# Type scopes

A type alias is visible only to the declarations that come after it in the same file.
-/

namespace NativeInterface

/-- The types that need no declaration. -/
def primitiveTypes : List String :=
  ["atom", "bool", "int", "uint", "int64", "uint64", "unsigned", "double", "float", "string", "pid",
    "state", "payload"]

def isPrimitiveType (name : String) : Bool := primitiveTypes.contains name

/-- The aliases visible at a point of a file, in order of declaration. -/
structure Scope where
  declared : List String := []
  deriving DecidableEq, Repr, Inhabited

namespace Scope

def isDeclared (s : Scope) (name : String) : Bool := s.declared.contains name

/-- Make an alias visible from here on. -/
def declare (s : Scope) (name : String) : Scope :=
  if s.isDeclared name then s else ⟨s.declared ++ [name]⟩

/-- A name that stands for a type here. -/
def knows (s : Scope) (name : String) : Bool := isPrimitiveType name || s.isDeclared name

/-- A type whose leaf is known, or a label. -/
def checkType (s : Scope) (usedIn : String) (span : Span) (type : Ty) : Except Fault Unit :=
  match type.leaf? with
  | none => .ok ()
  | some leaf => if s.knows leaf then .ok () else .error (.unknownType leaf usedIn span)

/-- The first type that is not known is at fault. -/
def checkTypes (s : Scope) (usedIn : String) (span : Span) (types : List Ty) : Except Fault Unit :=
  types.forM (s.checkType usedIn span)

/-- A field may also hold a list of its own struct. -/
def checkMember (s : Scope) (name : String) (span : Span) (m : Member) : Except Fault Unit :=
  match m.type.leaf? with
  | none => .ok ()
  | some leaf =>
    if s.knows leaf || (leaf == name && m.type.isList) then .ok ()
    else .error (.unknownType leaf (name ++ "." ++ m.name) span)

def checkStruct (s : Scope) (span : Span) (d : Struct) : Except Fault Unit :=
  d.members.forM (s.checkMember d.name span)

/-- The types of the values of a clause. -/
def valueTypes (c : RawClause) : List Ty := (c.items.filter fun i => !i.isLabel).map (·.type)

/-- The types of the arguments, then those of the result values. -/
def checkFunction (s : Scope) (f : RawFunction) : Except Fault Unit :=
  s.checkTypes f.name f.span (f.params.map (·.type) ++ f.results.flatMap valueTypes)

end Scope

end NativeInterface
