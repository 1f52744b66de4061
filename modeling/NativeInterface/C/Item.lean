import NativeInterface.C.Step
import NativeInterface.C.Type
import NativeInterface.Files.Path

/-!
# C files as lists of items

A header and a source are lists of top-level items, each with the part that it plays. Their text is
made only at the end.
-/

namespace NativeInterface.C

/-- The head of a C function. -/
structure Signature where
  isStatic : Bool := false
  returns : String
  name : String
  params : List String
  deriving DecidableEq, Repr, Inhabited

def Signature.text (s : Signature) : String :=
  (if s.isStatic then "static " else "") ++ s.returns ++ " " ++ s.name
    ++ "(" ++ Text.join ", " s.params ++ ")"

/-- The part that a C function plays. -/
inductive Role where
  /-- Written by hand, called for a request. -/
  | implementation (function : String) (arity : Nat)
  /-- Makes the result of a clause. -/
  | accessor (function : String) (arity : Nat) (accessor : String)
  | send
  | callback (hook : Hook)
  /-- Takes a request apart and calls the implementation. -/
  | wrapper (function : String) (arity : Nat)
  /-- Converts values of a declared type. -/
  | conversion (type : String)
  /-- Called by the runtime. -/
  | entry
  deriving DecidableEq, Repr, Inhabited

/-- A top-level item. -/
inductive Item where
  | raw (text : String)
  | blank
  | prototype (role : Role) (signature : Signature)
  | definition (role : Role) (signature : Signature) (body : List Step)
  | group (head : String) (body : List Step) (tail : String)
  deriving DecidableEq, Repr, Inhabited

namespace Item

def steps : Item → List Step
  | raw text => [.raw text]
  | blank => [.blank]
  | prototype _ signature => [.raw (signature.text ++ ";")]
  | definition _ signature body => block signature.text body
  | group head body tail => blockWith head body tail

/-- The text of a file. -/
def render (items : List Item) : String := C.render (items.flatMap steps)

end Item

/-! ### Names of functions -/

/-- Whether several functions have this name. -/
def isOverloaded (s : Surface) (f : NativeFunction) : Bool :=
  1 < (s.functions.filter (·.name == f.name)).length

/-- The C name of the hand-written implementation; functions of one name are told apart by arity. -/
def implName (s : Surface) (f : NativeFunction) : String :=
  if isOverloaded s f then ident f.name ++ "_" ++ Text.decimal f.arity else ident f.name

/-- The C name of the accessor of a clause, which follows that of the implementation. -/
def accessorName (s : Surface) (f : NativeFunction) (c : Clause) : String :=
  if isOverloaded s f then ident (implName s f ++ Text.stripFront f.name c.accessor)
  else ident c.accessor

/-! ### Signatures -/

/-- The declarations of the arguments of a function. -/
def paramDecls (s : Surface) (params : List Param) : List String :=
  params.flatMap fun p => valueDecls s p.name p.type

/-- The declarations of the values of a clause. -/
def clauseDecls (s : Surface) (c : Clause) : List String :=
  c.values.flatMap fun v => valueDecls s v.name v.type

def implSignature (returns : String) (s : Surface) (f : NativeFunction) : Signature where
  returns := returns
  name := implName s f
  params := "BridgeEnv *env" :: paramDecls s f.params

def accessorSignature (returns : String) (s : Surface) (f : NativeFunction) (c : Clause) :
    Signature where
  returns := returns
  name := accessorName s f c
  params := "BridgeEnv *env" :: clauseDecls s c

def sendSignature (s : Surface) (c : Clause) : Signature where
  returns := "int"
  name := ident c.accessor
  params := "BridgeEnv *env" :: "BridgePid pid" :: "int flags" :: clauseDecls s c

/-- Each hook has a signature of its own. -/
def callbackSignature (c : Callback) : Signature :=
  let name := ident c.function
  match c.hook with
  | .load => { returns := "int", name, params := ["BridgeEnv *env", "void **priv_data"] }
  | .upgrade =>
    { returns := "int", name,
      params := ["BridgeEnv *env", "void **priv_data", "void **old_priv_data"] }
  | .unload => { returns := "void", name, params := ["BridgeEnv *env", "void *priv_data"] }
  | .main => { returns := "int", name, params := ["int argc", "char **argv"] }

/-- The arguments with which a wrapper calls the implementation. -/
def callArguments (f : NativeFunction) : List String :=
  "env" :: f.params.flatMap fun p => valueNames p.name p.type

/-- The statement in which a wrapper calls the implementation. -/
def callText (s : Surface) (f : NativeFunction) : String :=
  "return " ++ implName s f ++ "(" ++ Text.join ", " (callArguments f) ++ ");"

/-! ### Numbering -/

/-- Values made while numbers for loop variables are handed out. -/
abbrev Numbered := StateM Nat

/-- The next number, from one on. -/
def fresh : Numbered Nat := modifyGet fun n => (n + 1, n + 1)

/-- What is made for each element, one behind the other. -/
def collect {α β : Type} (f : α → Numbered (List β)) : List α → Numbered (List β)
  | [] => pure []
  | x :: xs => do
    let first ← f x
    let rest ← collect f xs
    pure (first ++ rest)

end NativeInterface.C
