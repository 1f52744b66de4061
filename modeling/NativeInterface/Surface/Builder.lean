import NativeInterface.Event
import NativeInterface.Surface.Clauses
import NativeInterface.Surface.Scope

/-!
# Building a surface

Declarations are applied in file order. A setting with one value keeps the last one; functions and
types may be declared once. A declaration that fails changes nothing.
-/

namespace NativeInterface

/-- The declarations applied so far. -/
structure Builder where
  /-- The name of the spec, which is also the module name when none is declared. -/
  name : String
  moduleName : Option String := none
  interface : Option Interface := none
  stateType : Option String := none
  functions : List NativeFunction := []
  structs : List Struct := []
  enums : List Enum := []
  dirty : List DirtyMark := []
  callbacks : List Callback := []
  sends : Option Clause := none
  scope : Scope := {}
  deriving DecidableEq, Repr, Inhabited

/-- Replace the element with the same key, or add one at the end. -/
def putBy {α κ : Type} [DecidableEq κ] (key : α → κ) : List α → α → List α
  | [], x => [x]
  | y :: ys, x => if key y = key x then x :: ys else y :: putBy key ys x

/-- The function that a mark is about. -/
def DirtyMark.key (m : DirtyMark) : String × Nat := (m.function, m.arity)

/-- Replace the mark of the same function, or add one at the end. -/
def DirtyMark.put : List DirtyMark → DirtyMark → List DirtyMark := putBy DirtyMark.key

/-- Replace the callback of the same hook, or add one at the end. -/
def Callback.put : List Callback → Callback → List Callback := putBy Callback.hook

namespace Builder

def ofName (name : String) : Builder := { name }

def hasFunction (b : Builder) (name : String) (arity : Nat) : Bool :=
  b.functions.any fun f => f.name == name && f.arity == arity

def addFunction (b : Builder) (f : RawFunction) : Except Fault Builder := do
  let arity := f.params.length
  if b.hasFunction f.name arity then .error (.duplicateFunction f.name arity f.span)
  else
    b.scope.checkFunction f
    let results ← RawClause.index f.name f.results
    .ok { b with functions := b.functions ++ [⟨f.name, arity, f.params, results⟩] }

def addStruct (b : Builder) (span : Span) (s : Struct) : Except Fault Builder := do
  if b.scope.isDeclared s.name then .error (.duplicateTypeAlias s.name span)
  else
    b.scope.checkStruct span s
    .ok { b with structs := b.structs ++ [s], scope := b.scope.declare s.name }

def addEnum (b : Builder) (span : Span) (e : Enum) : Except Fault Builder :=
  if b.scope.isDeclared e.name then .error (.duplicateTypeAlias e.name span)
  else .ok { b with enums := b.enums ++ [e], scope := b.scope.declare e.name }

def addSends (b : Builder) (c : RawClause) : Except Fault Builder := do
  b.scope.checkTypes RawClause.sendsName c.span (Scope.valueTypes c)
  .ok { b with sends := some (← c.indexSend) }

/-- Apply the record of a declaration that stands at `span`. -/
def apply (b : Builder) (span : Span) : Record → Except Fault Builder
  | .moduleName name => .ok { b with moduleName := some name }
  | .interface tags => .ok { b with interface := tags }
  | .stateType name => .ok { b with stateType := some name }
  | .function f => b.addFunction f
  | .struct s => b.addStruct span s
  | .enum e => b.addEnum span e
  | .dirty marks => .ok { b with dirty := marks.foldl DirtyMark.put b.dirty }
  | .callback c => .ok { b with callbacks := Callback.put b.callbacks c }
  | .sends c => b.addSends c

/-- Apply one declaration. -/
def add (b : Builder) (d : Declaration) : Except Fault Builder := do
  b.apply d.span (← Record.ofDeclaration d)

/-- Apply a declaration, or leave it out when it fails. -/
def addOrSkip (b : Builder) (d : Declaration) : Builder :=
  match b.add d with
  | .ok b' => b'
  | .error _ => b

/-- The surface of the declarations applied so far. -/
def finish (b : Builder) : Surface where
  moduleName := b.moduleName.getD b.name
  interface := b.interface
  stateType := b.stateType
  functions := b.functions
  structs := b.structs
  enums := b.enums
  dirty := b.dirty
  callbacks := b.callbacks
  sends := b.sends

/-! ### What building reports -/

/-- The marks that marks of the same functions replace, each with its replacement. -/
def overwrites (marks : List DirtyMark) : List DirtyMark → List (DirtyMark × DirtyMark)
  | [] => []
  | m :: ms =>
    (marks.find? fun d => d.function == m.function && d.arity == m.arity).toList.map (·, m)
      ++ overwrites (DirtyMark.put marks m) ms

/-- What applying a record reports when it succeeds. -/
def notices (b : Builder) : Record → List Event
  | .moduleName _ => b.moduleName.toList.map (.moduleRedeclared b.name ·)
  | .interface _ => if b.interface.isSome then [.interfaceRedeclared b.name] else []
  | .stateType _ => b.stateType.toList.map (.stateTypeRedeclared b.name ·)
  | .function f => [.functionAdded b.name f.name f.params.length f.results.length]
  | .struct s => [.structAdded b.name s.name s.members.length]
  | .enum e => [.enumAdded b.name e.name e.variants.length]
  | .dirty marks => (overwrites b.dirty marks).map fun (old, new) =>
      .dirtyOverwritten b.name new.function new.arity old.kind.text new.kind.text
  | .callback c => (b.callbacks.find? (·.hook == c.hook)).toList.map fun old =>
      .callbackRedeclared b.name c.hook.text c.function old.function
  | .sends _ => if b.sends.isSome then [.sendsRedeclared b.name] else []

/-- What applying a declaration reports; a declaration that fails reports nothing. -/
def addNotices (b : Builder) (d : Declaration) : List Event :=
  match b.add d, Record.ofDeclaration d with
  | .ok _, .ok r => b.notices r
  | _, _ => []

/-- What finishing reports: marks of functions that are not declared. -/
def finishNotices (b : Builder) : List Event :=
  (b.dirty.filter fun d => !b.hasFunction d.function d.arity).map fun d =>
    .dirtyUndeclared b.name d.function d.arity

/-- What applying declarations and finishing reports, up to the first that fails. -/
def buildNotices (b : Builder) : List Declaration → List Event
  | [] => b.finishNotices
  | d :: ds =>
    match b.add d with
    | .ok b' => b.addNotices d ++ b'.buildNotices ds
    | .error _ => []

/-- What applying declarations and finishing reports when failing ones are left out. -/
def skippingNotices (b : Builder) : List Declaration → List Event
  | [] => b.finishNotices
  | d :: ds => b.addNotices d ++ (b.addOrSkip d).skippingNotices ds

end Builder

/-- The surface of a list of declarations; the first that fails decides. -/
def Surface.build (name : String) (ds : List Declaration) : Except Fault Surface := do
  .ok (← ds.foldlM Builder.add (Builder.ofName name)).finish

end NativeInterface
