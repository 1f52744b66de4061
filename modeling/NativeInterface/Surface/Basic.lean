import NativeInterface.Text.Words

/-!
# The native surface of a module

What one spec file declares, resolved: functions with their result clauses, types, scheduling marks,
lifecycle callbacks and the message it sends. Every list keeps the order of declaration, since field
order fixes layout, variant order fixes encoding and clause order fixes the order of accessors.
-/

namespace NativeInterface

/-- A type as it is written in a spec. -/
inductive Ty where
  /-- A primitive, or the alias of a struct or an enum. -/
  | named (name : String)
  | list (element : Ty)
  /-- The pseudo-type of a literal tag in a result. -/
  | label
  deriving DecidableEq, Repr, Inhabited

namespace Ty

/-- The name inside all list layers. -/
def leaf? : Ty → Option String
  | named name => some name
  | list element => element.leaf?
  | label => none

def isList : Ty → Bool
  | list _ => true
  | _ => false

def text : Ty → String
  | named name => name
  | list element => "[" ++ element.text ++ "]"
  | label => "label"

end Ty

/-- A function argument. -/
structure Param where
  name : String
  type : Ty
  deriving DecidableEq, Repr, Inhabited

/-- One element of a result: a label, or a typed value. -/
structure ResultItem where
  /-- Present exactly when the type is `Ty.label`. -/
  label : Option String
  name : String
  type : Ty
  deriving DecidableEq, Repr, Inhabited

namespace ResultItem

def ofLabel (symbol : String) : ResultItem := ⟨some symbol, symbol, .label⟩

def ofValue (name : String) (type : Ty) : ResultItem := ⟨none, name, type⟩

def isLabel (item : ResultItem) : Bool := item.label.isSome

end ResultItem

/-- One alternative result of a function, or the message of `sends`, with the name of its accessor.
-/
structure Clause where
  items : List ResultItem
  accessor : String
  deriving DecidableEq, Repr, Inhabited

namespace Clause

/-- The labels in order. -/
def labels (c : Clause) : List String := c.items.filterMap (·.label)

/-- The typed values in order. -/
def values (c : Clause) : List ResultItem := c.items.filter fun item => !item.isLabel

end Clause

/-- The signature of a native function. Backends pass it one more argument in front. -/
structure NativeFunction where
  name : String
  arity : Nat
  params : List Param
  results : List Clause
  deriving DecidableEq, Repr, Inhabited

/-- A field of a struct. -/
structure Member where
  name : String
  type : Ty
  deriving DecidableEq, Repr, Inhabited

/-- `type alias :: %Backing.Name{field: type, ...}` -/
structure Struct where
  name : String
  /-- The dotted name on the managed side. -/
  backing : String
  members : List Member
  deriving DecidableEq, Repr, Inhabited

/-- `type alias :: :a | :b | ...`; a variant is encoded by its place. -/
structure Enum where
  name : String
  variants : List String
  deriving DecidableEq, Repr, Inhabited

/-- The scheduler that a long-running function needs. -/
inductive DirtyKind where
  | cpu
  | io
  deriving DecidableEq, Repr, Inhabited

namespace DirtyKind

def text : DirtyKind → String
  | cpu => "cpu"
  | io => "io"

def ofText? : String → Option DirtyKind
  | "cpu" => some cpu
  | "io" => some io
  | _ => none

end DirtyKind

/-- A function that runs on a dirty scheduler. -/
structure DirtyMark where
  function : String
  arity : Nat
  kind : DirtyKind
  deriving DecidableEq, Repr, Inhabited

/-- The points in a module's life at which it may be called. -/
inductive Hook where
  | load
  | upgrade
  | unload
  | main
  deriving DecidableEq, Repr, Inhabited

namespace Hook

def text : Hook → String
  | load => "load"
  | upgrade => "upgrade"
  | unload => "unload"
  | main => "main"

def ofText? : String → Option Hook
  | "load" => some load
  | "upgrade" => some upgrade
  | "unload" => some unload
  | "main" => some main
  | _ => none

/-- The function called when a callback names none. -/
def defaultFunction (h : Hook) : String := "handle_" ++ h.text

end Hook

/-- The function called at a hook. -/
structure Callback where
  hook : Hook
  function : String
  deriving DecidableEq, Repr, Inhabited

/-- The interface tags of a module. -/
inductive Interface where
  | single (tag : String)
  | many (tags : List String)
  deriving DecidableEq, Repr, Inhabited

/-- The tag that decides the backend. -/
def Interface.first? : Interface → Option String
  | single tag => some tag
  | many tags => tags.head?

/-- The resolved surface of one module. -/
structure Surface where
  /-- The dotted module name. -/
  moduleName : String
  interface : Option Interface := none
  stateType : Option String := none
  functions : List NativeFunction := []
  structs : List Struct := []
  enums : List Enum := []
  dirty : List DirtyMark := []
  callbacks : List Callback := []
  sends : Option Clause := none
  deriving DecidableEq, Repr, Inhabited

namespace Surface

def function? (s : Surface) (name : String) (arity : Nat) : Option NativeFunction :=
  s.functions.find? fun f => f.name == name && f.arity == arity

def struct? (s : Surface) (name : String) : Option Struct := s.structs.find? (·.name == name)

def enum? (s : Surface) (name : String) : Option Enum := s.enums.find? (·.name == name)

def dirtyKind? (s : Surface) (name : String) (arity : Nat) : Option DirtyKind :=
  (s.dirty.find? fun d => d.function == name && d.arity == arity).map (·.kind)

def callback? (s : Surface) (hook : Hook) : Option Callback := s.callbacks.find? (·.hook == hook)

end Surface

end NativeInterface
