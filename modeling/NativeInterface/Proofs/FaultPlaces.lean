import NativeInterface.Proofs.Builder
import NativeInterface.Proofs.TreePlaces

/-!
# Where declarations are at fault

A declaration that cannot be applied is at fault at a place of its own: its span, the span of its
kind or a span in its payload. Each reader and each check is a computation whose faults stand at
places of what it was given (`Placed`).
-/

namespace NativeInterface

/-! ## Computations with placed faults -/

/-- The result is as `Q` says, or the fault stands at a place as `P` says. -/
inductive Placed {α : Type} (P : Span → Prop) (Q : α → Prop) : Except Fault α → Prop
  | ok {a : α} : Q a → Placed P Q (.ok a)
  | error {fault : Fault} {s : Span} : fault.span? = some s → P s → Placed P Q (.error fault)

namespace Placed
variable {α β : Type} {P P' : Span → Prop} {Q : α → Prop} {Q' : β → Prop}

theorem bind {x : Except Fault α} {f : α → Except Fault β} (h : Placed P Q x)
    (hf : ∀ a, Q a → Placed P Q' (f a)) : Placed P Q' (x >>= f) := by
  cases h with
  | ok ha => exact hf _ ha
  | error hspan hs => exact .error hspan hs

theorem map {x : Except Fault α} {f : α → β} (h : Placed P Q x) (hf : ∀ a, Q a → Q' (f a)) :
    Placed P Q' (x.map f) := by
  cases h with
  | ok ha => exact .ok (hf _ ha)
  | error hspan hs => exact .error hspan hs

theorem mono {x : Except Fault α} (h : Placed P Q x) (hP : ∀ s, P s → P' s) : Placed P' Q x := by
  cases h with
  | ok ha => exact .ok ha
  | error hspan hs => exact .error hspan (hP _ hs)

theorem weaken {x : Except Fault α} {Q' : α → Prop} (h : Placed P Q x) (hQ : ∀ a, Q a → Q' a) :
    Placed P Q' x := by
  cases h with
  | ok ha => exact .ok (hQ _ ha)
  | error hspan hs => exact .error hspan hs

theorem mapM {f : β → Except Fault α} {xs : List β} (h : ∀ x ∈ xs, Placed P Q (f x)) :
    Placed P (fun ys => ∀ y ∈ ys, Q y) (xs.mapM f) := by
  induction xs with
  | nil => exact .ok nofun
  | cons x xs ih =>
    rw [List.forall_mem_cons] at h
    rw [List.mapM_cons]
    refine h.1.bind fun y hy => (ih h.2).bind fun ys hys => .ok ?_
    exact List.forall_mem_cons.mpr ⟨hy, hys⟩

theorem forM {f : α → Except Fault Unit} {xs : List α}
    (h : ∀ x ∈ xs, Placed P (fun _ => True) (f x)) : Placed P (fun _ => True) (xs.forM f) := by
  induction xs with
  | nil => exact .ok trivial
  | cons x xs ih =>
    rw [List.forall_mem_cons] at h
    exact h.1.bind fun _ _ => ih h.2

theorem malformed {kind : String} {e : Expr} {reason : Reason} (h : P e.span) :
    Placed P Q (Record.malformed kind e reason) :=
  .error rfl h

theorem malformedWhole {d : Declaration} {reason : Reason} (h : P d.span) :
    Placed P Q (Record.malformedWhole d reason) :=
  .error rfl h

end Placed

/-! ## Places of expressions -/

namespace Expr
variable {span s : Span}

theorem has_span (e : Expr) : e.Has e.span := .self rfl

theorem has_of_list {items : List Expr} {e : Expr} (he : e ∈ items) (h : e.Has s) :
    (list items span).Has s :=
  .part (List.mem_map_of_mem he) h

theorem has_of_tuple {items : List Expr} {e : Expr} (he : e ∈ items) (h : e.Has s) :
    (tuple items span).Has s :=
  .part (List.mem_map_of_mem he) h

theorem has_of_typed_left {lhs rhs : Expr} (h : lhs.Has s) : (typed lhs rhs span).Has s :=
  .part (List.mem_cons_self ..) h

theorem has_of_typed_right {lhs rhs : Expr} (h : rhs.Has s) : (typed lhs rhs span).Has s :=
  .part (List.mem_cons_of_mem _ (List.mem_singleton.mpr rfl)) h

theorem has_of_alternatives {e a : Expr} {s : Span} (ha : a ∈ e.alternatives) (h : a.Has s) :
    e.Has s := by
  fun_induction alternatives e with
  | case1 lhs rhs span ihl ihr =>
    rcases List.mem_append.mp ha with ha | ha
    · exact .part (List.mem_cons_self ..) (ihl ha)
    · exact .part (List.mem_cons_of_mem _ (List.mem_singleton.mpr rfl)) (ihr ha)
  | case2 e he =>
    rw [List.mem_singleton.mp ha] at h
    exact h

theorem has_of_map {name : List String} {pairs : List (Ident × Expr)} {p : Ident × Expr}
    (hp : p ∈ pairs) (h : p.2.Has s) : (map name pairs span).Has s :=
  .part (List.mem_flatMap.mpr ⟨p, hp, by simp⟩) h

theorem has_of_keyword {pairs : List (Ident × Expr)} {p : Ident × Expr} (hp : p ∈ pairs)
    (h : p.2.Has s) : (keyword pairs span).Has s :=
  .part (List.mem_flatMap.mpr ⟨p, hp, by simp⟩) h

end Expr

/-! ## Records -/

/-- The places that building may report later are among those that `P` holds of. -/
def Record.PlacedIn (P : Span → Prop) : Record → Prop
  | function f => P f.span ∧ ∀ c ∈ f.results, P c.span
  | sends c => P c.span
  | _ => True

namespace Record
variable {kind : String}

theorem placed_valueType {P : Span → Prop} (name : String) {e : Expr} (h : P e.span) :
    Placed P (fun _ => True) (valueType kind name e) := by
  unfold valueType
  split
  · exact .malformed h
  · exact .ok trivial

theorem placed_ty (e : Expr) : Placed e.Has (fun _ => True) (ty kind e) := by
  fun_induction ty kind e with
  | case1 name span => exact placed_valueType name (Expr.has_span _)
  | case2 element span ih =>
    refine Placed.map (ih.mono fun s hs => ?_) fun _ _ => trivial
    exact Expr.has_of_list (List.mem_singleton.mpr rfl) hs
  | case3 | case4 => exact .malformed (Expr.has_span _)

theorem placed_param (e : Expr) : Placed e.Has (fun _ => True) (param kind e) := by
  unfold param
  split
  · exact (placed_valueType _ (Expr.has_span _)).bind fun _ _ => .ok trivial
  · split
    · rename_i span _ name place
      have hplace : (Expr.list [.ident name place] span).Has place :=
        Expr.has_of_list (List.mem_singleton.mpr rfl) (.self rfl)
      exact (placed_valueType _ hplace).bind fun _ _ => .ok trivial
    · exact .malformed (Expr.has_span _)
  · exact .malformed (Expr.has_span _)
  · split
    · refine Placed.bind ((placed_ty _).mono fun s hs => ?_) fun _ _ => .ok trivial
      exact Expr.has_of_typed_right hs
    · exact .malformed (Expr.has_of_typed_left (Expr.has_span _))
  · exact .malformed (Expr.has_span _)

theorem placed_resultItem (e : Expr) : Placed e.Has (fun _ => True) (resultItem kind e) := by
  unfold resultItem
  split
  · exact .ok trivial
  · split
    · split
      · exact .ok trivial
      · exact .malformed (Expr.has_of_typed_left (Expr.has_span _))
    · split
      · exact .malformed (Expr.has_span _)
      · exact (placed_param _).bind fun _ _ => .ok trivial
  · exact (placed_param _).bind fun _ _ => .ok trivial

theorem placed_clause (e : Expr) : Placed e.Has (fun c => e.Has c.span) (clause kind e) := by
  unfold clause
  split
  · refine Placed.bind (Placed.mapM (Q := fun _ => True) fun part hpart => ?_)
      fun _ _ => .ok (.self rfl)
    exact (placed_resultItem part).mono fun s hs => Expr.has_of_tuple hpart hs
  · exact (placed_resultItem e).bind fun _ _ => .ok (Expr.has_span e)

variable (d : Declaration)

theorem placed_onlyPayload : Placed d.Has (· ∈ d.payload) (onlyPayload d) := by
  unfold onlyPayload
  split
  · rename_i e h
    exact .ok (by rw [h]; exact List.mem_singleton.mpr rfl)
  · exact .malformedWhole (.inl rfl)

/-- A reader of the only payload expression is placed in the declaration if it is in the
expression. -/
theorem placed_onlyPayload_bind {β : Type} {Q : β → Prop} {f : Expr → Except Fault β}
    (h : ∀ e ∈ d.payload, Placed e.Has Q (f e)) : Placed d.Has Q (onlyPayload d >>= f) :=
  (placed_onlyPayload d).bind fun e he => (h e he).mono fun _ hs => .inr (.inr ⟨e, he, hs⟩)

theorem placed_readModule : Placed d.Has (PlacedIn d.Has) (readModule d) := by
  refine placed_onlyPayload_bind d fun e _ => ?_
  split
  · exact .ok trivial
  · exact .malformed (Expr.has_span _)

theorem placed_interfaceTag (e : Expr) : Placed e.Has (fun _ => True) (interfaceTag kind e) := by
  unfold interfaceTag
  split
  · exact .ok trivial
  · exact .ok trivial
  · exact .malformed (Expr.has_span _)

theorem placed_readInterface : Placed d.Has (PlacedIn d.Has) (readInterface d) := by
  refine placed_onlyPayload_bind d fun e _ => ?_
  split
  · exact .ok trivial
  · refine Placed.bind (Placed.mapM (Q := fun _ => True) fun tag htag => ?_) fun _ _ => .ok trivial
    exact (placed_interfaceTag tag).mono fun s hs => Expr.has_of_list htag hs
  · exact (placed_interfaceTag _).bind fun _ _ => .ok trivial

theorem placed_readStateType : Placed d.Has (PlacedIn d.Has) (readStateType d) := by
  refine placed_onlyPayload_bind d fun e _ => ?_
  split
  · split
    · exact .malformed (Expr.has_span _)
    · exact .ok trivial
  · exact .ok trivial
  · exact .ok trivial
  · exact .malformed (Expr.has_span _)

theorem placed_functionHead (e : Expr) :
    Placed e.Has (fun head => ∀ a ∈ head.2, ∀ s, a.Has s → e.Has s) (functionHead kind e) := by
  unfold functionHead
  split
  · refine .ok fun a ha s hs => ?_
    exact .part (List.mem_cons_of_mem _ (List.mem_map_of_mem ha)) hs
  · exact .ok nofun
  · exact .malformed (Expr.has_span _)

theorem placed_readFunction : Placed d.Has (PlacedIn d.Has) (readFunction d) := by
  refine (placed_onlyPayload d).bind fun e he => ?_
  have hin {s : Span} (hs : e.Has s) : d.Has s := .inr (.inr ⟨e, he, hs⟩)
  split
  · rename_i head result span
    refine ((placed_functionHead head).mono fun s hs => hin (Expr.has_of_typed_left hs)).bind ?_
    rintro ⟨name, args⟩ hargs
    refine Placed.bind (Placed.mapM (Q := fun _ => True) fun a ha => ?_) fun params _ => ?_
    · exact (placed_param a).mono fun s hs => hin (Expr.has_of_typed_left (hargs a ha s hs))
    · have hclause (a : Expr) (ha : a ∈ result.alternatives) :
          Placed d.Has (fun c => d.Has c.span) (clause d.kind.name a) := by
        have hresult {s : Span} (hs : a.Has s) : d.Has s :=
          hin (Expr.has_of_typed_right (Expr.has_of_alternatives ha hs))
        exact ((placed_clause a).mono fun s hs => hresult hs).weaken fun c hc => hresult hc
      exact (Placed.mapM hclause).bind fun results hresults => .ok ⟨hin (.self rfl), hresults⟩
  · exact .malformed (hin (Expr.has_span _))

theorem placed_memberType (e : Expr) : Placed e.Has (fun _ => True) (memberType kind e) := by
  unfold memberType
  split
  · exact placed_valueType _ (Expr.has_span _)
  · rename_i name place span
    have hplace : (Expr.list [.ident name place] span).Has place :=
      Expr.has_of_list (List.mem_singleton.mpr rfl) (.self rfl)
    exact (placed_valueType name hplace).bind fun _ _ => .ok trivial
  · exact .malformed (Expr.has_span _)
  · exact .malformed (Expr.has_span _)

theorem placed_members (seen : List String) (pairs : List (Ident × Expr)) :
    Placed (fun s => ∃ p ∈ pairs, p.2.Has s) (fun _ => True) (members kind seen pairs) := by
  induction pairs generalizing seen with
  | nil => exact .ok trivial
  | cons p rest ih =>
    obtain ⟨key, value⟩ := p
    rw [members]
    split
    · exact .malformed ⟨_, List.mem_cons_self .., Expr.has_span _⟩
    · refine Placed.bind ((placed_memberType value).mono fun s hs => ?_) fun _ _ => ?_
      · exact ⟨_, List.mem_cons_self .., hs⟩
      · refine Placed.bind ((ih _).mono fun s hs => ?_) fun _ _ => .ok trivial
        obtain ⟨p, hp, hs⟩ := hs
        exact ⟨p, List.mem_cons_of_mem _ hp, hs⟩

theorem placed_typeBody (name : String) (e : Expr) :
    Placed e.Has (PlacedIn d.Has) (typeBody kind name e) := by
  have hvariants : Placed e.Has (fun _ => True) (e.alternatives.mapM (variant kind)) := by
    have hvariant (a : Expr) : Placed a.Has (fun _ => True) (variant kind a) := by
      unfold variant
      split
      · exact .ok trivial
      · exact .malformed (Expr.has_span _)
    refine (Placed.mapM (Q := fun _ => True) fun a ha => ?_).weaken fun _ _ => trivial
    exact (hvariant a).mono fun s hs => Expr.has_of_alternatives ha hs
  unfold typeBody
  split
  · refine Placed.bind ((placed_members [] _).mono fun s hs => ?_) fun _ _ => .ok trivial
    obtain ⟨p, hp, hs⟩ := hs
    exact Expr.has_of_map hp hs
  · exact hvariants.bind fun _ _ => .ok trivial
  · exact hvariants.bind fun _ _ => .ok trivial
  · exact .malformed (Expr.has_span _)

theorem placed_readType : Placed d.Has (PlacedIn d.Has) (readType d) := by
  refine placed_onlyPayload_bind d fun e _ => ?_
  split
  · split
    · exact (placed_typeBody d _ _).mono fun s hs => Expr.has_of_typed_right hs
    · exact .malformed (Expr.has_of_typed_left (Expr.has_span _))
  · exact .malformed (Expr.has_span _)

theorem placed_arity (e : Expr) : Placed e.Has (fun _ => True) (arity kind e) := by
  unfold arity
  split
  · exact .ok trivial
  · exact .malformed (Expr.has_span _)

theorem placed_pairMarks (scheduler : DirtyKind) (pairs : List (Ident × Expr)) (span : Span) :
    Placed (Expr.keyword pairs span).Has (fun _ => True) (pairMarks kind scheduler pairs) := by
  refine (Placed.mapM (Q := fun _ => True) fun p hp => ?_).weaken fun _ _ => trivial
  refine Placed.bind ((placed_arity p.2).mono fun s hs => ?_) fun _ _ => .ok trivial
  exact Expr.has_of_keyword hp hs

theorem placed_marksOfAll (scheduler : DirtyKind) {es : List Expr}
    (h : ∀ e ∈ es, Placed e.Has (fun _ => True) (marks kind scheduler e)) :
    Placed (fun s => ∃ e ∈ es, e.Has s) (fun _ => True) (marksOfAll kind scheduler es) := by
  induction es with
  | nil => exact .ok trivial
  | cons e es ih =>
    rw [List.forall_mem_cons] at h
    rw [marksOfAll]
    refine Placed.bind (h.1.mono fun s hs => ?_) fun _ _ => ?_
    · exact ⟨e, List.mem_cons_self .., hs⟩
    · refine Placed.bind ((ih h.2).mono fun s hs => ?_) fun _ _ => .ok trivial
      obtain ⟨a, ha, hs⟩ := hs
      exact ⟨a, List.mem_cons_of_mem _ ha, hs⟩

theorem placed_marks (scheduler : DirtyKind) (e : Expr) :
    Placed e.Has (fun _ => True) (marks kind scheduler e) := by
  fun_cases marks kind scheduler e with
  | case1 pairs span => exact placed_pairMarks scheduler pairs span
  | case2 items span =>
    refine (placed_marksOfAll scheduler fun a ha => placed_marks scheduler a).mono fun s hs => ?_
    obtain ⟨a, ha, hs⟩ := hs
    exact Expr.has_of_list ha hs
  | case3 name count span symbol _ =>
    refine Placed.bind ((placed_arity count).mono fun s hs => ?_) fun _ _ => .ok trivial
    exact Expr.has_of_tuple (by simp) hs
  | case4 name count span _ => exact .malformed (Expr.has_of_tuple (by simp) (Expr.has_span name))
  | case5 | case6 => exact .malformed (Expr.has_span _)
termination_by sizeOf e
decreasing_by
  rename_i he
  have := List.sizeOf_lt_of_mem ha
  rw [he, Expr.list.sizeOf_spec]
  omega

theorem placed_readDirty : Placed d.Has (PlacedIn d.Has) (readDirty d) := by
  unfold readDirty
  split
  · exact .malformedWhole (.inl rfl)
  · rename_i e functions hpayload
    have hin {a : Expr} (ha : a ∈ e :: functions) {s : Span} (hs : a.Has s) : d.Has s :=
      .inr (.inr ⟨a, hpayload ▸ ha, hs⟩)
    have hself : d.Has e.span := hin (List.mem_cons_self ..) (Expr.has_span e)
    split
    · exact .malformed hself
    · split
      · exact .error rfl hself
      · rename_i scheduler _
        have hmarks : Placed _ _ (marksOfAll d.kind.name scheduler functions) :=
          placed_marksOfAll scheduler fun a _ => placed_marks scheduler a
        refine Placed.bind (hmarks.mono fun s hs => ?_) fun found _ => ?_
        · obtain ⟨a, ha, hs⟩ := hs
          exact hin (List.mem_cons_of_mem _ ha) hs
        · split
          · exact .malformedWhole (.inl rfl)
          · exact .ok trivial

theorem placed_hook (e : Expr) : Placed e.Has (fun _ => True) (hook kind e) := by
  unfold hook
  split
  · exact .malformed (Expr.has_span _)
  · split
    · exact .error rfl (Expr.has_span _)
    · exact .ok trivial

theorem placed_readCallback : Placed d.Has (PlacedIn d.Has) (readCallback d) := by
  have hin {a : Expr} (ha : a ∈ d.payload) {s : Span} (hs : a.Has s) : d.Has s :=
    .inr (.inr ⟨a, ha, hs⟩)
  unfold readCallback
  split
  · rename_i e hpayload
    have he : e ∈ d.payload := by simp [hpayload]
    exact ((placed_hook e).mono fun s hs => hin he hs).bind fun _ _ => .ok trivial
  · rename_i e target hpayload
    have he : e ∈ d.payload := by simp [hpayload]
    have htarget : target ∈ d.payload := by simp [hpayload]
    refine ((placed_hook e).mono fun s hs => hin he hs).bind fun _ _ => ?_
    split
    · exact .ok trivial
    · exact .malformed (hin htarget (Expr.has_span _))
  · exact .malformedWhole (.inl rfl)

theorem placed_readSends : Placed d.Has (PlacedIn d.Has) (readSends d) := by
  refine (placed_onlyPayload d).bind fun e he => ?_
  have hin {s : Span} (hs : e.Has s) : d.Has s := .inr (.inr ⟨e, he, hs⟩)
  exact ((placed_clause e).mono fun s hs => hin hs).bind fun c hc => .ok (hin hc)

theorem placed_ofDeclaration : Placed d.Has (PlacedIn d.Has) (ofDeclaration d) := by
  unfold ofDeclaration
  split
  · exact placed_readModule d
  · exact placed_readInterface d
  · exact placed_readStateType d
  · exact placed_readFunction d
  · exact placed_readType d
  · exact placed_readDirty d
  · exact placed_readCallback d
  · exact placed_readSends d
  · exact .error rfl (.inr (.inl rfl))

end Record

/-! ## Building -/

namespace Builder
variable {P : Span → Prop}

theorem placed_checkTypes (scope : Scope) (usedIn : String) {span : Span} (h : P span)
    (types : List Ty) : Placed P (fun _ => True) (scope.checkTypes usedIn span types) := by
  refine Placed.forM fun type _ => ?_
  unfold Scope.checkType
  split
  · exact .ok trivial
  · split
    · exact .ok trivial
    · exact .error rfl h

theorem placed_checkStruct (scope : Scope) {span : Span} (h : P span) (s : Struct) :
    Placed P (fun _ => True) (scope.checkStruct span s) := by
  refine Placed.forM fun m _ => ?_
  unfold Scope.checkMember
  split
  · exact .ok trivial
  · split
    · exact .ok trivial
    · exact .error rfl h

theorem placed_check (function : String) (index : Nat) {c : RawClause} (h : P c.span) :
    Placed P (fun _ => True) (c.check function index) := by
  unfold RawClause.check
  split
  · exact .error rfl h
  · split
    · exact .error rfl h
    · exact .ok trivial

theorem placed_indexFrom (function : String) (index : Nat) (seen : List String)
    {cs : List RawClause} (h : ∀ c ∈ cs, P c.span) :
    Placed P (fun _ => True) (RawClause.indexFrom function index seen cs) := by
  induction cs generalizing index seen with
  | nil => exact .ok trivial
  | cons c cs ih =>
    rw [List.forall_mem_cons] at h
    rw [RawClause.indexFrom]
    refine (placed_check function index h.1).bind fun _ _ => ?_
    dsimp only
    split
    · exact .error rfl h.1
    · exact (ih _ _ h.2).bind fun _ _ => .ok trivial

theorem placed_apply (b : Builder) {span : Span} (hspan : P span) {r : Record}
    (h : r.PlacedIn P) : Placed P (fun _ => True) (b.apply span r) := by
  cases r with
  | moduleName | interface | stateType | dirty | callback => exact .ok trivial
  | function f =>
    rw [apply, addFunction]
    split
    · exact .error rfl h.1
    · refine (placed_checkTypes b.scope f.name h.1 _).bind fun _ _ => ?_
      exact (placed_indexFrom f.name 0 [] h.2).bind fun _ _ => .ok trivial
  | struct s =>
    rw [apply, addStruct]
    split
    · exact .error rfl hspan
    · exact (placed_checkStruct b.scope hspan s).bind fun _ _ => .ok trivial
  | enum e =>
    rw [apply, addEnum]
    split
    · exact .error rfl hspan
    · exact .ok trivial
  | sends c =>
    refine (placed_checkTypes b.scope RawClause.sendsName h _).bind fun _ _ => ?_
    refine Placed.bind (Q := fun _ => True) ?_ fun _ _ => .ok trivial
    exact (placed_check RawClause.sendsName 0 h).bind fun _ _ => .ok trivial

/-- A declaration that cannot be applied is at fault at one of its places. -/
theorem placed_add (b : Builder) (d : Declaration) :
    Placed d.Has (fun _ => True) (b.add d) :=
  (Record.placed_ofDeclaration d).bind fun _ hr => placed_apply b (.inl rfl) hr

/-- The declaration that decides is the first that cannot be applied. -/
theorem exists_of_foldlM {ds : List Declaration} {b : Builder} {fault : Fault}
    (h : ds.foldlM add b = .error fault) :
    ∃ (done : List Declaration) (d : Declaration) (rest : List Declaration) (b' : Builder),
      ds = done ++ d :: rest ∧ done.foldlM add b = .ok b' ∧ b'.add d = .error fault := by
  induction ds generalizing b with
  | nil => cases h
  | cons d ds ih =>
    rw [List.foldlM_cons] at h
    cases hadd : b.add d with
    | error fault' =>
      rw [hadd] at h
      cases h
      exact ⟨[], d, ds, b, rfl, rfl, hadd⟩
    | ok b' =>
      rw [hadd] at h
      obtain ⟨done, e, rest, b'', rfl, hdone, he⟩ := ih h
      refine ⟨d :: done, e, rest, b'', rfl, ?_, he⟩
      rw [List.foldlM_cons, hadd]
      exact hdone

theorem exists_of_build {name : String} {ds : List Declaration} {fault : Fault}
    (h : Surface.build name ds = .error fault) :
    ∃ (done : List Declaration) (d : Declaration) (rest : List Declaration) (b : Builder),
      ds = done ++ d :: rest ∧ done.foldlM add (ofName name) = .ok b ∧ b.add d = .error fault := by
  unfold Surface.build at h
  cases hall : ds.foldlM add (ofName name) with
  | ok b =>
    rw [hall] at h
    cases h
  | error fault' =>
    rw [hall] at h
    cases h
    exact exists_of_foldlM hall

end Builder

end NativeInterface
