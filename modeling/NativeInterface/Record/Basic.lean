import NativeInterface.Declaration.Expr
import NativeInterface.Fault
import NativeInterface.Surface.Basic

/-!
# Records

The canonical meaning of one declaration. All checks are local to the declaration; what depends on
other declarations is checked where the surface is built.
-/

namespace NativeInterface

/-- A result clause before its accessor is named. -/
structure RawClause where
  items : List ResultItem
  span : Span
  deriving DecidableEq, Repr, Inhabited

/-- A function before its clauses are indexed. -/
structure RawFunction where
  name : String
  params : List Param
  results : List RawClause
  span : Span
  deriving DecidableEq, Repr, Inhabited

/-- The canonical form of one declaration. -/
inductive Record where
  | moduleName (name : String)
  /-- Nothing when the declaration lists no tags. -/
  | interface (tags : Option Interface)
  | stateType (name : String)
  | function (f : RawFunction)
  | struct (s : Struct)
  | enum (e : Enum)
  | dirty (marks : List DirtyMark)
  | callback (c : Callback)
  | sends (c : RawClause)
  deriving DecidableEq, Repr, Inhabited

namespace Record

/-- The name of the pseudo-type of labels. -/
def labelType : String := "label"

/-- A fault in an expression of a declaration of some kind. -/
def malformed {α : Type} (kind : String) (e : Expr) (reason : Reason) : Except Fault α :=
  .error (.malformed kind e.text reason e.span)

/-- A fault in a declaration as a whole. -/
def malformedWhole {α : Type} (d : Declaration) (reason : Reason) : Except Fault α :=
  .error (.malformed d.kind.name d.text reason d.span)

/-- The only payload expression. -/
def onlyPayload (d : Declaration) : Except Fault Expr :=
  match d.payload with
  | [e] => .ok e
  | es => malformedWhole d (.argumentCount 1 es.length)

/-! ### Types and values -/

/-- A name where a value is expected; labels are not values. -/
def valueType (kind name : String) (e : Expr) : Except Fault Ty :=
  if name = labelType then malformed kind e .labelAsType else .ok (.named name)

/-- `int`, `[int]`, `[[int]]`, ... -/
def ty (kind : String) : Expr → Except Fault Ty
  | .ident name span => valueType kind name (.ident name span)
  | .list [element] _ => (ty kind element).map .list
  | .list items span => malformed kind (.list items span) .listTypeCount
  | e => malformed kind e .type

/-- `name`, `[name]` or `name :: type` -/
def param (kind : String) : Expr → Except Fault Param
  | .ident name span => do .ok ⟨name, ← valueType kind name (.ident name span)⟩
  | .list [element] span =>
    match element with
    | .ident name place => do .ok ⟨name, .list (← valueType kind name (.ident name place))⟩
    | _ => malformed kind (.list [element] span) .listArgument
  | .list items span => malformed kind (.list items span) .listArgumentCount
  | .typed lhs rhs _ =>
    match lhs with
    | .ident name _ => do .ok ⟨name, ← ty kind rhs⟩
    | _ => malformed kind lhs .argumentName
  | e => malformed kind e .argument

/-- A label or a value of a result. -/
def resultItem (kind : String) (e : Expr) : Except Fault ResultItem :=
  match e with
  | .atom symbol _ => .ok (.ofLabel symbol)
  | .typed lhs rhs _ =>
    if rhs.ident? = some labelType then
      match lhs.symbol? with
      | some symbol => .ok (.ofLabel symbol)
      | none => malformed kind lhs .labelSymbol
    else if lhs.atom?.isSome then malformed kind e .typedSymbol
    else do
      let p ← param kind e
      .ok (.ofValue p.name p.type)
  | _ => do
    let p ← param kind e
    .ok (.ofValue p.name p.type)

/-- A grouping has an item for each part; any other expression is a clause of one item. -/
def clause (kind : String) (e : Expr) : Except Fault RawClause :=
  match e with
  | .tuple parts span => do .ok ⟨← parts.mapM (resultItem kind), span⟩
  | _ => do .ok ⟨[← resultItem kind e], e.span⟩

/-! ### One reader for each kind -/

def readModule (d : Declaration) : Except Fault Record := do
  match ← onlyPayload d with
  | .dotted parts _ => .ok (.moduleName (Text.join "." parts))
  | e => malformed d.kind.name e .moduleName

def interfaceTag (kind : String) : Expr → Except Fault String
  | .dotted parts _ => .ok (Text.join "." parts)
  | .atom name _ => .ok name
  | e => malformed kind e .interfaceTag

def readInterface (d : Declaration) : Except Fault Record := do
  match ← onlyPayload d with
  | .list [] _ => .ok (.interface none)
  | .list tags _ => do .ok (.interface (some (.many (← tags.mapM (interfaceTag d.kind.name)))))
  | e => do .ok (.interface (some (.single (← interfaceTag d.kind.name e))))

def readStateType (d : Declaration) : Except Fault Record := do
  match ← onlyPayload d with
  | .str s span =>
    if s.isEmpty then malformed d.kind.name (.str s span) .stateType else .ok (.stateType s)
  | .ident name _ => .ok (.stateType name)
  | .dotted parts _ => .ok (.stateType (Text.join "." parts))
  | e => malformed d.kind.name e .stateType

/-- The name and the arguments of `name(args)` or of a bare `name`. -/
def functionHead (kind : String) : Expr → Except Fault (String × List Expr)
  | .call name args _ => .ok (name.name, args)
  | .ident name _ => .ok (name, [])
  | e => malformed kind e .functionHead

def readFunction (d : Declaration) : Except Fault Record := do
  match ← onlyPayload d with
  | .typed head result span => do
    let (name, args) ← functionHead d.kind.name head
    let params ← args.mapM (param d.kind.name)
    let results ← result.alternatives.mapM (clause d.kind.name)
    .ok (.function ⟨name, params, results, span⟩)
  | e => malformed d.kind.name e .signature

/-- A field type is a name or a list of a name. -/
def memberType (kind : String) : Expr → Except Fault Ty
  | .ident name span => valueType kind name (.ident name span)
  | .list [.ident name place] _ => do .ok (.list (← valueType kind name (.ident name place)))
  | .list items span => malformed kind (.list items span) .listField
  | e => malformed kind e .fieldType

/-- The fields behind those already read, whose names must not be used again. -/
def members (kind : String) (seen : List String) : List (Ident × Expr) → Except Fault (List Member)
  | [] => .ok []
  | (key, value) :: rest => do
    if seen.contains key.name then malformed kind value (.repeatedField key.name)
    else
      let type ← memberType kind value
      let tail ← members kind (key.name :: seen) rest
      .ok (⟨key.name, type⟩ :: tail)

def variant (kind : String) : Expr → Except Fault String
  | .atom symbol _ => .ok symbol
  | e => malformed kind e .variantSymbol

/-- A map defines a struct, symbols define an enum. -/
def typeBody (kind name : String) (body : Expr) : Except Fault Record :=
  match body with
  | .map backing entries _ => do
    .ok (.struct ⟨name, Text.join "." backing, ← members kind [] entries⟩)
  | .atom _ _ | .alt _ _ _ => do
    .ok (.enum ⟨name, ← body.alternatives.mapM (variant kind)⟩)
  | _ => malformed kind body .typeBody

def readType (d : Declaration) : Except Fault Record := do
  match ← onlyPayload d with
  | .typed lhs body _ =>
    match lhs with
    | .ident name _ => typeBody d.kind.name name body
    | _ => malformed d.kind.name lhs .typeAlias
  | e => malformed d.kind.name e .typeDefinition

def arity (kind : String) : Expr → Except Fault Nat
  | .int (.ofNat n) _ => .ok n
  | e => malformed kind e .arity

/-- One mark for each pair. -/
def pairMarks (kind : String) (scheduler : DirtyKind) (pairs : List (Ident × Expr)) :
    Except Fault (List DirtyMark) :=
  pairs.mapM fun p => do .ok ⟨p.1.name, ← arity kind p.2, scheduler⟩

mutual

/-- The marks of `fun: 1, ...`, of `{fun, 1}` and of any list of these. -/
def marks (kind : String) (scheduler : DirtyKind) : Expr → Except Fault (List DirtyMark)
  | .keyword pairs _ => pairMarks kind scheduler pairs
  | .list items _ => marksOfAll kind scheduler items
  | .tuple [name, count] _ =>
    match name.symbol? with
    | some symbol => do .ok [⟨symbol, ← arity kind count, scheduler⟩]
    | none => malformed kind name .functionName
  | .tuple items span => malformed kind (.tuple items span) .functionPair
  | e => malformed kind e .functionArity

/-- The marks of several expressions, one behind the other. -/
def marksOfAll (kind : String) (scheduler : DirtyKind) : List Expr → Except Fault (List DirtyMark)
  | [] => .ok []
  | e :: es => do
    let first ← marks kind scheduler e
    let rest ← marksOfAll kind scheduler es
    .ok (first ++ rest)

end

def readDirty (d : Declaration) : Except Fault Record :=
  match d.payload with
  | [] => malformedWhole d .dirtyShape
  | kind :: functions =>
    match kind.symbol? with
    | none => malformed d.kind.name kind .dirtyKind
    | some name =>
      match DirtyKind.ofText? name with
      | none => .error (.invalidDirtyKind name kind.span)
      | some scheduler => do
        let found ← marksOfAll d.kind.name scheduler functions
        if found.isEmpty then malformedWhole d .dirtyEmpty else .ok (.dirty found)

/-- The hook that an expression names. -/
def hook (kind : String) (e : Expr) : Except Fault Hook :=
  match e.symbol? with
  | none => malformed kind e .hookSymbol
  | some name =>
    match Hook.ofText? name with
    | none => .error (.invalidHook name e.span)
    | some h => .ok h

def readCallback (d : Declaration) : Except Fault Record :=
  match d.payload with
  | [e] => do
    let h ← hook d.kind.name e
    .ok (.callback ⟨h, h.defaultFunction⟩)
  | [e, target] => do
    let h ← hook d.kind.name e
    match target.symbol? with
    | some name => .ok (.callback ⟨h, name⟩)
    | none => malformed d.kind.name target .functionName
  | _ => malformedWhole d .callbackShape

def readSends (d : Declaration) : Except Fault Record := do
  .ok (.sends (← clause d.kind.name (← onlyPayload d)))

/-- The meaning of a declaration, by its kind. -/
def ofDeclaration (d : Declaration) : Except Fault Record :=
  match d.kind.name with
  | "module" => readModule d
  | "interface" => readInterface d
  | "state_type" => readStateType d
  | "spec" => readFunction d
  | "type" => readType d
  | "dirty" => readDirty d
  | "callback" => readCallback d
  | "sends" => readSends d
  | kind => .error (.malformed kind kind .unknownKind d.kind.span)

end Record

end NativeInterface
