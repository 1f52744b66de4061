import NativeInterface.C.Name
import NativeInterface.Surface.Basic

/-!
# C types of values

How the types of a surface appear in C: what a leaf name refers to, its C type, the declarations of
a value and the helper that converts it. A list is a pointer with a length beside it; a list inside
a list is the runtime's generic list.
-/

namespace NativeInterface.C

/-- The leaf types that the runtimes know. -/
inductive Primitive where
  | atom
  | bool
  | int
  | uint
  | int64
  | uint64
  | double
  | string
  | pid
  | state
  | payload
  deriving DecidableEq, Repr, Inhabited

namespace Primitive

def ofName? : String → Option Primitive
  | "atom" => some atom
  | "bool" => some bool
  | "int" => some int
  | "uint" | "unsigned" => some uint
  | "int64" => some int64
  | "uint64" => some uint64
  | "double" | "float" => some double
  | "string" => some string
  | "pid" => some pid
  | "state" => some state
  | "payload" => some payload
  | _ => none

/-- The last part of the names of the runtime's helpers. -/
def suffix : Primitive → String
  | atom => "atom"
  | bool => "bool"
  | int => "int"
  | uint => "uint"
  | int64 => "int64"
  | uint64 => "uint64"
  | double => "double"
  | string => "string"
  | pid => "pid"
  | state => "state"
  | payload => "payload"

end Primitive

/-- What a leaf name refers to. -/
inductive Leaf where
  | primitive (p : Primitive)
  | struct (name : String)
  | enum (name : String)
  /-- Not declared in this surface; it stands for itself. -/
  | unresolved (name : String)
  deriving DecidableEq, Repr, Inhabited

def classify (s : Surface) (name : String) : Leaf :=
  match Primitive.ofName? name with
  | some p => .primitive p
  | none =>
    if (s.struct? name).isSome then .struct name
    else if (s.enum? name).isSome then .enum name
    else .unresolved name

/-- The C type of the state handle. -/
def stateType (s : Surface) : String :=
  match s.stateType with
  | some name => ident name ++ " *"
  | none => "void *"

def primitiveType (s : Surface) : Primitive → String
  | .atom | .string => "char *"
  | .bool | .int => "int"
  | .uint => "unsigned int"
  | .int64 => "int64_t"
  | .uint64 => "uint64_t"
  | .double => "double"
  | .pid => "BridgePid"
  | .state => stateType s
  | .payload => "BridgePayload"

/-- The C type of one value. -/
def typeText (s : Surface) : Ty → String
  | .named name =>
    match classify s name with
    | .primitive p => primitiveType s p
    | .struct name | .enum name | .unresolved name => ident name
  | .list _ => "BridgeList"
  | .label => "char *"

def endsInStar (type : String) : Bool := type.toList.getLast? = some '*'

/-- A declaration; no blank stands between a star and the name. -/
def declare (type name : String) : String :=
  if endsInStar type then type ++ name else type ++ " " ++ name

def pointerTo (type : String) : String := if endsInStar type then type ++ "*" else type ++ " *"

/-- The C names of one value: a list has its length beside it. -/
def valueNames (name : String) (type : Ty) : List String :=
  if type.isList then [ident name, lengthName (ident name)] else [ident name]

/-- The declarations of one value as parameters or fields. -/
def valueDecls (s : Surface) (name : String) : Ty → List String
  | .list element =>
    [declare (pointerTo (typeText s element)) (ident name),
      declare "unsigned int" (lengthName (ident name))]
  | type => [declare (typeText s type) (ident name)]

/-- The declaration of a local with nothing in it. -/
def localText (decl : String) : String :=
  decl ++ " = " ++ (if decl.toList.contains '*' then "NULL" else "\x7b0\x7d") ++ ";"

/-- One value as locals. -/
def valueLocals (s : Surface) (name : String) (type : Ty) : List String :=
  (valueDecls s name type).map localText

/-- The helper that converts one value in the direction `op`. -/
def helper (s : Surface) (op : String) : Ty → String
  | .named name =>
    match classify s name with
    | .primitive p => "bridge_" ++ op ++ "_" ++ p.suffix
    | .struct name | .enum name | .unresolved name => op ++ "_" ++ ident name
  | .list _ => "bridge_" ++ op ++ "_list_value"
  | .label => "bridge_" ++ op ++ "_atom"

end NativeInterface.C
