import NativeInterface.Surface.Builder

/-!
# Building in place

Declarations applied to one builder that is changed step by step. A fault ends the work on its
declaration, and whatever was changed before it stays changed.
-/

namespace NativeInterface

/-- Work on a builder, which may stop at a fault. -/
abbrev Edit := ExceptT Fault (StateM Builder)

namespace Builder

/-- A check of the builder as it stands. -/
def inspect {α : Type} (check : Builder → Except Fault α) : Edit α :=
  ExceptT.mk do return check (← get)

/-- No type of this name is declared. -/
def requireFree (name : String) (span : Span) : Edit Unit :=
  inspect fun b =>
    if b.scope.isDeclared name then .error (.duplicateTypeAlias name span) else .ok ()

def editFunction (f : RawFunction) : Edit Unit := do
  let arity := f.params.length
  inspect fun b =>
    if b.hasFunction f.name arity then .error (.duplicateFunction f.name arity f.span) else .ok ()
  inspect fun b => b.scope.checkFunction f
  let results ← inspect fun _ => RawClause.index f.name f.results
  modify fun b => { b with functions := b.functions ++ [⟨f.name, arity, f.params, results⟩] }

def editStruct (span : Span) (s : Struct) : Edit Unit := do
  requireFree s.name span
  inspect fun b => b.scope.checkStruct span s
  modify fun b => { b with scope := b.scope.declare s.name }
  modify fun b => { b with structs := b.structs ++ [s] }

def editEnum (span : Span) (e : Enum) : Edit Unit := do
  requireFree e.name span
  modify fun b => { b with scope := b.scope.declare e.name }
  modify fun b => { b with enums := b.enums ++ [e] }

def editDirty (m : DirtyMark) : Edit Unit :=
  modify fun b => { b with dirty := DirtyMark.put b.dirty m }

def editSends (c : RawClause) : Edit Unit := do
  inspect fun b => b.scope.checkTypes RawClause.sendsName c.span (Scope.valueTypes c)
  let sent ← inspect fun _ => c.indexSend
  modify fun b => { b with sends := some sent }

/-- Apply the record of a declaration that stands at `span`. -/
def editRecord (span : Span) : Record → Edit Unit
  | .moduleName name => modify fun b => { b with moduleName := some name }
  | .interface tags => modify fun b => { b with interface := tags }
  | .stateType name => modify fun b => { b with stateType := some name }
  | .function f => editFunction f
  | .struct s => editStruct span s
  | .enum e => editEnum span e
  | .dirty marks => marks.forM editDirty
  | .callback c => modify fun b => { b with callbacks := Callback.put b.callbacks c }
  | .sends c => editSends c

/-- Apply one declaration. -/
def edit (d : Declaration) : Edit Unit := do
  let r ← inspect fun _ => Record.ofDeclaration d
  editRecord d.span r

/-- Apply declarations one behind the other, whichever of them fail; the outcome of each. -/
def editAll (ds : List Declaration) : StateM Builder (List (Except Fault Unit)) :=
  ds.mapM fun d => (edit d).run

end Builder

end NativeInterface
