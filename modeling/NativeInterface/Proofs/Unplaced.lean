import NativeInterface.Proofs.Grammar
import NativeInterface.Proofs.Record
import NativeInterface.Surface.Builder

/-!
# Meaning without places

Forgetting the places of a declaration forgets the places in its record and in its fault, and
nothing else. So a list of declarations without places has the same surface as the list itself, or
the same fault up to its place (`Surface.build_unplaced`).
-/

namespace NativeInterface

/-! ## Faults -/

namespace Fault

/-- The fault with no place in it. -/
def unplaced : Fault → Fault
  | malformed kind fragment reason _ => malformed kind fragment reason {}
  | invalidDirtyKind kind _ => invalidDirtyKind kind {}
  | invalidHook hook _ => invalidHook hook {}
  | unknownType name usedIn _ => unknownType name usedIn {}
  | emptyLabelSet function clause _ => emptyLabelSet function clause {}
  | duplicateAccessor function name _ => duplicateAccessor function name {}
  | duplicateResultName function name _ => duplicateResultName function name {}
  | duplicateFunction name arity _ => duplicateFunction name arity {}
  | duplicateTypeAlias name _ => duplicateTypeAlias name {}
  | interfaceNotSpecified moduleName => interfaceNotSpecified moduleName
  | unknownBackend tag => unknownBackend tag

end Fault

namespace Outcome
variable {α β γ δ : Type}

/-- The outcome with its result seen through `p` and its fault without a place. -/
def forget (p : α → β) : Except Fault α → Except Fault β
  | .ok a => .ok (p a)
  | .error fault => .error fault.unplaced

theorem forget_bind {p : α → γ} {q : β → δ} {x : Except Fault α} {x' : Except Fault γ}
    {f : α → Except Fault β} {g : γ → Except Fault δ} (hx : x' = forget p x)
    (h : ∀ a, g (p a) = forget q (f a)) : (x' >>= g) = forget q (x >>= f) := by
  subst hx
  cases x with
  | error fault => rfl
  | ok a => exact h a

theorem forget_ite {p : α → β} {c : Prop} [Decidable c] (x y : Except Fault α) :
    forget p (if c then x else y) = if c then forget p x else forget p y := by
  split <;> rfl

theorem forget_mapM {p : α → γ} {q : β → δ} {f : α → Except Fault β} {g : γ → Except Fault δ}
    (h : ∀ a, g (p a) = forget q (f a)) (xs : List α) :
    (xs.map p).mapM g = forget (List.map q) (xs.mapM f) := by
  induction xs with
  | nil => rfl
  | cons x xs ih =>
    rw [List.map_cons, List.mapM_cons, List.mapM_cons]
    exact forget_bind (h x) fun y => forget_bind ih fun ys => rfl

/-- Results that hold no places stay as they are. -/
theorem forget_mapM_id {p : α → γ} {f : α → Except Fault β} {g : γ → Except Fault β}
    (h : ∀ a, g (p a) = forget id (f a)) (xs : List α) :
    (xs.map p).mapM g = forget id (xs.mapM f) :=
  List.map_id_fun ▸ forget_mapM h xs

theorem forget_forM {f g : α → Except Fault Unit} (h : ∀ a, g a = forget id (f a))
    (xs : List α) : xs.forM g = forget id (xs.forM f) := by
  induction xs with
  | nil => rfl
  | cons x xs ih => exact forget_bind (h x) fun _ => ih

end Outcome

open Outcome

/-! ## Expressions -/

namespace Expr

theorem unplacedAll_eq_map (es : List Expr) : unplacedAll es = es.map unplaced := by
  induction es with
  | nil => rfl
  | cons e es ih => rw [unplacedAll, ih, List.map_cons]

theorem unplacedPairs_eq_map (ps : List (Ident × Expr)) :
    unplacedPairs ps = ps.map fun p => (⟨p.1.name, {}⟩, p.2.unplaced) := by
  induction ps with
  | nil => rfl
  | cons p ps ih => rw [unplacedPairs, ih, List.map_cons]

@[simp] theorem span_unplaced (e : Expr) : e.unplaced.span = {} := by
  cases e <;> rfl

@[simp] theorem ident?_unplaced (e : Expr) : e.unplaced.ident? = e.ident? := by
  cases e <;> rfl

@[simp] theorem atom?_unplaced (e : Expr) : e.unplaced.atom? = e.atom? := by
  cases e <;> rfl

@[simp] theorem symbol?_unplaced (e : Expr) : e.unplaced.symbol? = e.symbol? := by
  cases e <;> rfl

theorem alternatives_unplaced (e : Expr) :
    e.unplaced.alternatives = e.alternatives.map unplaced := by
  fun_induction alternatives e with
  | case1 lhs rhs span ihl ihr => rw [unplaced, alternatives, ihl, ihr, List.map_append]
  | case2 e he =>
    cases e with
    | alt lhs rhs span => exact absurd rfl (he lhs rhs span)
    | _ => rfl

mutual

/-- The surface form has no places in it. -/
theorem text_unplaced : (e : Expr) → e.unplaced.text = e.text
  | ident _ _ | dotted _ _ | atom _ _ | int _ _ | str _ _ => rfl
  | list items _ | tuple items _ | call _ items _ => by
    simp only [unplaced, text, texts_unplacedAll items]
  | typed lhs rhs _ | alt lhs rhs _ => by
    simp only [unplaced, text, text_unplaced lhs, text_unplaced rhs]
  | map _ entries _ | keyword entries _ => by
    simp only [unplaced, text, pairTexts_unplacedPairs entries]

theorem texts_unplacedAll : (es : List Expr) → texts (unplacedAll es) = texts es
  | [] => rfl
  | e :: es => by simp only [unplacedAll, texts, text_unplaced e, texts_unplacedAll es]

theorem pairTexts_unplacedPairs :
    (ps : List (Ident × Expr)) → pairTexts (unplacedPairs ps) = pairTexts ps
  | [] => rfl
  | (_, value) :: ps => by
    simp only [unplacedPairs, pairTexts, text_unplaced value, pairTexts_unplacedPairs ps]

end

end Expr

theorem Declaration.text_unplaced (d : Declaration) : d.unplaced.text = d.text := by
  simp only [Declaration.text, Declaration.unplaced, Expr.texts_unplacedAll]

/-! ## Records -/

/-- The clause with no place in it. -/
def RawClause.unplaced (c : RawClause) : RawClause := { c with span := {} }

/-- The function with no places in it. -/
def RawFunction.unplaced (f : RawFunction) : RawFunction :=
  { f with results := f.results.map RawClause.unplaced, span := {} }

namespace Record

/-- The record with no places in it. -/
def unplaced : Record → Record
  | .function f => .function f.unplaced
  | .sends c => .sends c.unplaced
  | r => r

theorem malformed_unplaced {α β : Type} (p : α → β) (kind : String) (e : Expr) (reason : Reason) :
    malformed kind e.unplaced reason = forget p (malformed kind e reason) := by
  rw [malformed, Expr.text_unplaced, Expr.span_unplaced]
  rfl

theorem malformedWhole_unplaced {α β : Type} (p : α → β) (d : Declaration) (reason : Reason) :
    malformedWhole d.unplaced reason = forget p (malformedWhole d reason) := by
  rw [malformedWhole, Declaration.text_unplaced]
  rfl

theorem onlyPayload_unplaced (d : Declaration) :
    onlyPayload d.unplaced = forget Expr.unplaced (onlyPayload d) := by
  obtain ⟨kind, payload, span⟩ := d
  match payload with
  | [] => exact malformedWhole_unplaced _ ⟨kind, [], span⟩ _
  | [e] => rfl
  | e :: e' :: es =>
    have hlength : (Expr.unplacedAll (e :: e' :: es)).length = (e :: e' :: es).length := by
      rw [Expr.unplacedAll_eq_map, List.length_map]
    change malformedWhole (Declaration.unplaced ⟨kind, e :: e' :: es, span⟩)
      (.argumentCount 1 (Expr.unplacedAll (e :: e' :: es)).length) = _
    rw [hlength]
    exact malformedWhole_unplaced _ _ _

theorem valueType_unplaced (kind name : String) (e : Expr) :
    valueType kind name e.unplaced = forget id (valueType kind name e) := by
  unfold valueType
  rw [forget_ite, malformed_unplaced id]
  rfl

theorem ty_unplaced (kind : String) (e : Expr) :
    ty kind e.unplaced = forget id (ty kind e) := by
  fun_induction ty kind e with
  | case1 name span => exact valueType_unplaced kind name (.ident name span)
  | case2 element span ih =>
    change (ty kind element.unplaced).map Ty.list = _
    rw [ih]
    cases ty kind element <;> rfl
  | case3 items span hitems =>
    cases items with
    | nil => exact malformed_unplaced id kind (.list [] span) _
    | cons e es =>
      cases es with
      | nil => exact absurd rfl (hitems e)
      | cons e' es => exact malformed_unplaced id kind (.list (e :: e' :: es) span) _
  | case4 e hident _ hlist =>
    cases e with
    | ident name span => exact absurd rfl (hident name span)
    | list items span => exact absurd rfl (hlist items span)
    | _ => exact malformed_unplaced id kind _ .type

theorem param_unplaced (kind : String) (e : Expr) :
    param kind e.unplaced = forget id (param kind e) := by
  cases e with
  | ident name span =>
    exact forget_bind (valueType_unplaced kind name (.ident name span)) fun _ => rfl
  | list items span =>
    match items with
    | [] => exact malformed_unplaced id kind (.list [] span) _
    | [element] =>
      cases element with
      | ident name place =>
        exact forget_bind (valueType_unplaced kind name (.ident name place)) fun _ => rfl
      | _ => exact malformed_unplaced id kind (.list [_] span) .listArgument
    | e :: e' :: es => exact malformed_unplaced id kind (.list (e :: e' :: es) span) _
  | typed lhs rhs span =>
    cases lhs with
    | ident name place => exact forget_bind (ty_unplaced kind rhs) fun _ => rfl
    | _ => exact malformed_unplaced id kind _ .argumentName
  | _ => exact malformed_unplaced id kind _ .argument

theorem resultItem_unplaced (kind : String) (e : Expr) :
    resultItem kind e.unplaced = forget id (resultItem kind e) := by
  cases e with
  | atom symbol span => rfl
  | typed lhs rhs span =>
    unfold resultItem
    simp only [Expr.unplaced, Expr.ident?_unplaced, Expr.symbol?_unplaced, Expr.atom?_unplaced]
    split
    · split
      · rfl
      · exact malformed_unplaced id kind lhs _
    · split
      · exact malformed_unplaced id kind (.typed lhs rhs span) _
      · exact forget_bind (param_unplaced kind (.typed lhs rhs span)) fun _ => rfl
  | _ => exact forget_bind (param_unplaced kind _) fun _ => rfl

theorem clause_unplaced (kind : String) (e : Expr) :
    clause kind e.unplaced = forget RawClause.unplaced (clause kind e) := by
  cases e with
  | tuple parts span =>
    have hparts := forget_mapM_id (resultItem_unplaced kind) parts
    rw [← Expr.unplacedAll_eq_map] at hparts
    exact forget_bind hparts fun _ => rfl
  | _ => exact forget_bind (resultItem_unplaced kind _) fun _ => rfl

theorem readModule_unplaced (d : Declaration) :
    readModule d.unplaced = forget unplaced (readModule d) := by
  refine forget_bind (onlyPayload_unplaced d) fun e => ?_
  cases e with
  | dotted parts span => rfl
  | _ => exact malformed_unplaced unplaced d.kind.name _ .moduleName

theorem interfaceTag_unplaced (kind : String) (e : Expr) :
    interfaceTag kind e.unplaced = forget id (interfaceTag kind e) := by
  cases e with
  | dotted | atom => rfl
  | _ => exact malformed_unplaced id kind _ .interfaceTag

theorem readInterface_unplaced (d : Declaration) :
    readInterface d.unplaced = forget unplaced (readInterface d) := by
  refine forget_bind (onlyPayload_unplaced d) fun e => ?_
  cases e with
  | list tags span =>
    cases tags with
    | nil => rfl
    | cons tag tags =>
      have htags := forget_mapM_id (interfaceTag_unplaced d.kind.name) (tag :: tags)
      rw [← Expr.unplacedAll_eq_map] at htags
      exact forget_bind htags fun _ => rfl
  | _ => exact forget_bind (interfaceTag_unplaced d.kind.name _) fun _ => rfl

theorem readStateType_unplaced (d : Declaration) :
    readStateType d.unplaced = forget unplaced (readStateType d) := by
  refine forget_bind (onlyPayload_unplaced d) fun e => ?_
  cases e with
  | str value span =>
    change (if value.isEmpty then malformed d.kind.name (Expr.str value span).unplaced .stateType
      else _) = _
    rw [forget_ite, malformed_unplaced unplaced]
    rfl
  | ident | dotted => rfl
  | _ => exact malformed_unplaced unplaced d.kind.name _ .stateType

theorem functionHead_unplaced (kind : String) (e : Expr) :
    functionHead kind e.unplaced =
      forget (fun p => (p.1, p.2.map Expr.unplaced)) (functionHead kind e) := by
  cases e with
  | call name args span =>
    change Except.ok (name.name, Expr.unplacedAll args) = _
    rw [Expr.unplacedAll_eq_map]
    rfl
  | ident => rfl
  | _ => exact malformed_unplaced _ kind _ .functionHead

theorem readFunction_unplaced (d : Declaration) :
    readFunction d.unplaced = forget unplaced (readFunction d) := by
  refine forget_bind (onlyPayload_unplaced d) fun e => ?_
  cases e with
  | typed head result span =>
    have hresults := forget_mapM (clause_unplaced d.kind.name) result.alternatives
    rw [← Expr.alternatives_unplaced] at hresults
    exact forget_bind (functionHead_unplaced d.kind.name head) fun ⟨name, args⟩ =>
      forget_bind (forget_mapM_id (param_unplaced d.kind.name) args) fun params =>
        forget_bind hresults fun _ => rfl
  | _ => exact malformed_unplaced unplaced d.kind.name _ .signature

theorem memberType_cons_cons (kind : String) (e e' : Expr) (es : List Expr) (span : Span) :
    memberType kind (.list (e :: e' :: es) span) =
      malformed kind (.list (e :: e' :: es) span) .listField := by
  simp [memberType]

theorem memberType_unplaced (kind : String) (e : Expr) :
    memberType kind e.unplaced = forget id (memberType kind e) := by
  cases e with
  | ident name span => exact valueType_unplaced kind name (.ident name span)
  | list items span =>
    match items with
    | [] => exact malformed_unplaced id kind (.list [] span) _
    | [element] =>
      cases element with
      | ident name place =>
        exact forget_bind (valueType_unplaced kind name (.ident name place)) fun _ => rfl
      | _ => exact malformed_unplaced id kind (.list [_] span) .listField
    | e :: e' :: es =>
      change memberType kind (.list (e.unplaced :: e'.unplaced :: Expr.unplacedAll es) {}) = _
      rw [memberType_cons_cons, memberType_cons_cons]
      exact malformed_unplaced id kind (.list (e :: e' :: es) span) _
  | _ => exact malformed_unplaced id kind _ .fieldType

theorem members_unplaced (kind : String) (seen : List String) (entries : List (Ident × Expr)) :
    members kind seen (Expr.unplacedPairs entries) = forget id (members kind seen entries) := by
  induction entries generalizing seen with
  | nil => rfl
  | cons entry rest ih =>
    obtain ⟨key, value⟩ := entry
    simp only [Expr.unplacedPairs, members]
    rw [forget_ite, malformed_unplaced id]
    congr 1
    exact forget_bind (memberType_unplaced kind value) fun _ => forget_bind (ih _) fun _ => rfl

theorem variant_unplaced (kind : String) (e : Expr) :
    variant kind e.unplaced = forget id (variant kind e) := by
  cases e with
  | atom => rfl
  | _ => exact malformed_unplaced id kind _ .variantSymbol

theorem typeBody_unplaced (kind name : String) (body : Expr) :
    typeBody kind name body.unplaced = forget unplaced (typeBody kind name body) := by
  have hvariants := forget_mapM_id (variant_unplaced kind) body.alternatives
  rw [← Expr.alternatives_unplaced] at hvariants
  cases body with
  | map backing entries span => exact forget_bind (members_unplaced kind [] entries) fun _ => rfl
  | atom | alt => exact forget_bind hvariants fun _ => rfl
  | _ => exact malformed_unplaced unplaced kind _ .typeBody

theorem readType_unplaced (d : Declaration) :
    readType d.unplaced = forget unplaced (readType d) := by
  refine forget_bind (onlyPayload_unplaced d) fun e => ?_
  cases e with
  | typed lhs body span =>
    cases lhs with
    | ident name place => exact typeBody_unplaced d.kind.name name body
    | _ => exact malformed_unplaced unplaced d.kind.name _ .typeAlias
  | _ => exact malformed_unplaced unplaced d.kind.name _ .typeDefinition

theorem arity_unplaced (kind : String) (e : Expr) :
    arity kind e.unplaced = forget id (arity kind e) := by
  cases e with
  | int value span =>
    cases value with
    | ofNat n => rfl
    | negSucc n => exact malformed_unplaced id kind (.int (.negSucc n) span) _
  | _ => exact malformed_unplaced id kind _ .arity

theorem pairMarks_unplaced (kind : String) (scheduler : DirtyKind) (pairs : List (Ident × Expr)) :
    pairMarks kind scheduler (Expr.unplacedPairs pairs) =
      forget id (pairMarks kind scheduler pairs) := by
  unfold pairMarks
  rw [Expr.unplacedPairs_eq_map]
  refine forget_mapM_id (fun p => ?_) pairs
  exact forget_bind (arity_unplaced kind p.2) fun _ => rfl

mutual

theorem marks_unplaced (kind : String) (scheduler : DirtyKind) :
    (e : Expr) → marks kind scheduler e.unplaced = forget id (marks kind scheduler e)
  | .keyword pairs _ => pairMarks_unplaced kind scheduler pairs
  | .list items _ => marksOfAll_unplaced kind scheduler items
  | .tuple [name, count] span => by
    simp only [Expr.unplaced, Expr.unplacedAll, marks, Expr.symbol?_unplaced]
    split
    · exact forget_bind (arity_unplaced kind count) fun _ => rfl
    · exact malformed_unplaced id kind name _
  | .tuple [] span => malformed_unplaced id kind (.tuple [] span) _
  | .tuple [e] span => malformed_unplaced id kind (.tuple [e] span) _
  | .tuple (e :: e' :: e'' :: es) span =>
    malformed_unplaced id kind (.tuple (e :: e' :: e'' :: es) span) _
  | .ident name span => malformed_unplaced id kind (.ident name span) _
  | .dotted parts span => malformed_unplaced id kind (.dotted parts span) _
  | .atom name span => malformed_unplaced id kind (.atom name span) _
  | .int value span => malformed_unplaced id kind (.int value span) _
  | .str value span => malformed_unplaced id kind (.str value span) _
  | .call name args span => malformed_unplaced id kind (.call name args span) _
  | .typed lhs rhs span => malformed_unplaced id kind (.typed lhs rhs span) _
  | .alt lhs rhs span => malformed_unplaced id kind (.alt lhs rhs span) _
  | .map name entries span => malformed_unplaced id kind (.map name entries span) _

theorem marksOfAll_unplaced (kind : String) (scheduler : DirtyKind) :
    (es : List Expr) →
      marksOfAll kind scheduler (Expr.unplacedAll es) = forget id (marksOfAll kind scheduler es)
  | [] => rfl
  | e :: es =>
    forget_bind (marks_unplaced kind scheduler e) fun _ =>
      forget_bind (marksOfAll_unplaced kind scheduler es) fun _ => rfl

end

theorem readDirty_unplaced (d : Declaration) :
    readDirty d.unplaced = forget unplaced (readDirty d) := by
  obtain ⟨kind, payload, span⟩ := d
  cases payload with
  | nil => exact malformedWhole_unplaced unplaced ⟨kind, [], span⟩ _
  | cons first functions =>
    simp only [readDirty, Declaration.unplaced, Expr.unplacedAll, Expr.symbol?_unplaced]
    split
    · exact malformed_unplaced unplaced kind.name first _
    · split
      · rw [Expr.span_unplaced]
        rfl
      · refine forget_bind (marksOfAll_unplaced kind.name _ functions) fun found => ?_
        rw [forget_ite, ← malformedWhole_unplaced]
        rfl

theorem hook_unplaced (kind : String) (e : Expr) :
    hook kind e.unplaced = forget id (hook kind e) := by
  unfold hook
  rw [Expr.symbol?_unplaced, Expr.span_unplaced]
  split
  · exact malformed_unplaced id kind e _
  · split <;> rfl

theorem readCallback_unplaced (d : Declaration) :
    readCallback d.unplaced = forget unplaced (readCallback d) := by
  obtain ⟨kind, payload, span⟩ := d
  match payload with
  | [] => exact malformedWhole_unplaced unplaced ⟨kind, [], span⟩ _
  | [e] => exact forget_bind (hook_unplaced kind.name e) fun _ => rfl
  | [e, target] =>
    refine forget_bind (hook_unplaced kind.name e) fun h => ?_
    dsimp only
    rw [Expr.symbol?_unplaced]
    split
    · rfl
    · exact malformed_unplaced unplaced kind.name target _
  | e :: e' :: e'' :: es =>
    exact malformedWhole_unplaced unplaced ⟨kind, e :: e' :: e'' :: es, span⟩ _

theorem readSends_unplaced (d : Declaration) :
    readSends d.unplaced = forget unplaced (readSends d) :=
  forget_bind (onlyPayload_unplaced d) fun e =>
    forget_bind (clause_unplaced d.kind.name e) fun _ => rfl

theorem ofDeclaration_unplaced (d : Declaration) :
    ofDeclaration d.unplaced = forget unplaced (ofDeclaration d) := by
  have hkind : d.unplaced.kind.name = d.kind.name := rfl
  unfold ofDeclaration
  rw [hkind]
  split
  · exact readModule_unplaced d
  · exact readInterface_unplaced d
  · exact readStateType_unplaced d
  · exact readFunction_unplaced d
  · exact readType_unplaced d
  · exact readDirty_unplaced d
  · exact readCallback_unplaced d
  · exact readSends_unplaced d
  · rfl

end Record

/-! ## Clauses and types -/

namespace RawClause

theorem check_unplaced (function : String) (index : Nat) (c : RawClause) :
    c.unplaced.check function index = forget id (c.check function index) := by
  have hlabels : c.unplaced.labels = c.labels := rfl
  have hnames : c.unplaced.valueNames = c.valueNames := rfl
  unfold check
  rw [hlabels, hnames]
  split
  · rfl
  · split <;> rfl

theorem indexFrom_unplaced (function : String) (index : Nat) (seen : List String)
    (cs : List RawClause) :
    indexFrom function index seen (cs.map unplaced) =
      forget id (indexFrom function index seen cs) := by
  induction cs generalizing index seen with
  | nil => rfl
  | cons c cs ih =>
    refine forget_bind (check_unplaced function index c) fun _ => ?_
    dsimp only
    rw [forget_ite]
    congr 1
    exact forget_bind (ih _ _) fun _ => rfl

theorem indexSend_unplaced (c : RawClause) : c.unplaced.indexSend = forget id c.indexSend :=
  forget_bind (check_unplaced sendsName 0 c) fun _ => rfl

end RawClause

namespace Scope

theorem checkTypes_unplaced (s : Scope) (usedIn : String) (span : Span) (types : List Ty) :
    s.checkTypes usedIn {} types = forget id (s.checkTypes usedIn span types) := by
  refine forget_forM (fun t => ?_) types
  unfold checkType
  split
  · rfl
  · rw [forget_ite]
    rfl

theorem checkStruct_unplaced (s : Scope) (span : Span) (d : Struct) :
    s.checkStruct {} d = forget id (s.checkStruct span d) := by
  refine forget_forM (fun m => ?_) d.members
  unfold checkMember
  split
  · rfl
  · rw [forget_ite]
    rfl

theorem checkFunction_unplaced (s : Scope) (f : RawFunction) :
    s.checkFunction f.unplaced = forget id (s.checkFunction f) := by
  have htypes : f.unplaced.results.flatMap valueTypes = f.results.flatMap valueTypes := by
    rw [RawFunction.unplaced, List.flatMap_map]
    rfl
  unfold checkFunction
  rw [htypes]
  exact checkTypes_unplaced s f.name f.span _

end Scope

/-! ## The builder -/

namespace Builder

theorem addFunction_unplaced (b : Builder) (f : RawFunction) :
    b.addFunction f.unplaced = forget id (b.addFunction f) := by
  unfold addFunction
  dsimp only
  rw [forget_ite]
  congr 1
  exact forget_bind (Scope.checkFunction_unplaced b.scope f) fun _ =>
    forget_bind (RawClause.indexFrom_unplaced f.name 0 [] f.results) fun _ => rfl

theorem addStruct_unplaced (b : Builder) (span : Span) (s : Struct) :
    b.addStruct {} s = forget id (b.addStruct span s) := by
  unfold addStruct
  rw [forget_ite]
  congr 1
  exact forget_bind (Scope.checkStruct_unplaced b.scope span s) fun _ => rfl

theorem addEnum_unplaced (b : Builder) (span : Span) (e : Enum) :
    b.addEnum {} e = forget id (b.addEnum span e) := by
  unfold addEnum
  rw [forget_ite]
  rfl

theorem addSends_unplaced (b : Builder) (c : RawClause) :
    b.addSends c.unplaced = forget id (b.addSends c) :=
  forget_bind (Scope.checkTypes_unplaced b.scope _ c.span _) fun _ =>
    forget_bind (RawClause.indexSend_unplaced c) fun _ => rfl

theorem apply_unplaced (b : Builder) (span : Span) (r : Record) :
    b.apply {} r.unplaced = forget id (b.apply span r) := by
  cases r with
  | function f => exact addFunction_unplaced b f
  | struct s => exact addStruct_unplaced b span s
  | enum e => exact addEnum_unplaced b span e
  | sends c => exact addSends_unplaced b c
  | _ => rfl

theorem add_unplaced (b : Builder) (d : Declaration) :
    b.add d.unplaced = forget id (b.add d) :=
  forget_bind (Record.ofDeclaration_unplaced d) fun r => apply_unplaced b d.span r

theorem foldlM_add_unplaced (ds : List Declaration) (b : Builder) :
    (ds.map Declaration.unplaced).foldlM add b = forget id (ds.foldlM add b) := by
  induction ds generalizing b with
  | nil => rfl
  | cons d ds ih =>
    rw [List.map_cons, List.foldlM_cons, List.foldlM_cons]
    exact forget_bind (add_unplaced b d) fun b' => ih b'

end Builder

/-- Building looks at no places, except to say where a fault is. -/
theorem Surface.build_unplaced (name : String) (ds : List Declaration) :
    build name (ds.map Declaration.unplaced) = forget id (build name ds) :=
  forget_bind (Builder.foldlM_add_unplaced ds (.ofName name)) fun _ => rfl

end NativeInterface
