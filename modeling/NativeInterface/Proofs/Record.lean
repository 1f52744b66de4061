import NativeInterface.Proofs.Outcome
import Mathlib.Data.List.Nodup

/-!
# What the record of a declaration guarantees

`Record.Read` says once what a declaration can be read as. The facts that `Record.ofDeclaration`
establishes for one declaration alone follow from it, and are collected in `Record.WellFormed`. The
surface is built from such records only.
-/

namespace NativeInterface

/-- A type of values: inside its list layers stands a name. -/
def Ty.IsValue (t : Ty) : Prop := ∃ name, t.leaf? = some name

/-- Labels have the type of labels, all other items a type of values. -/
def ResultItem.WellTyped (i : ResultItem) : Prop :=
  if i.isLabel then i.type = .label else i.type.IsValue

theorem ResultItem.WellTyped.isValue {i : ResultItem} (h : i.WellTyped) (hi : i.isLabel = false) :
    i.type.IsValue := by
  unfold WellTyped at h
  rwa [if_neg (by simp [hi])] at h

/-- An item with a name inside its type is no label. -/
theorem ResultItem.WellTyped.not_isLabel {i : ResultItem} (h : i.WellTyped) {leaf : String}
    (hleaf : i.type.leaf? = some leaf) : i.isLabel = false := by
  cases hi : i.isLabel with
  | false => rfl
  | true =>
    unfold WellTyped at h
    rw [if_pos hi] at h
    rw [h] at hleaf
    cases hleaf

namespace Expr

/-- The items of a clause. -/
def items : Expr → List Expr
  | tuple parts _ => parts
  | e => [e]

theorem items_of_ne_tuple {e : Expr} (h : ∀ parts p, e ≠ tuple parts p) : e.items = [e] := by
  rw [items]
  exact h

end Expr

namespace Record
variable {kind : String} {e : Expr}

/-- What holds of every record that is read from a declaration. -/
def WellFormed : Record → Prop
  | .interface tags => tags ≠ some (.many [])
  | .function f =>
    (∀ p ∈ f.params, p.type.IsValue) ∧ ∀ c ∈ f.results, ∀ i ∈ c.items, i.WellTyped
  | .struct s => (s.members.map (·.name)).Nodup ∧ ∀ m ∈ s.members, m.type.IsValue
  | .enum e => e.variants ≠ []
  | .sends c => ∀ i ∈ c.items, i.WellTyped
  | .moduleName _ | .stateType _ | .dirty _ | .callback _ => True

/-! ## How values are read -/

section values
variable {kind : String} {e : Expr}

theorem valueType_ok {name : String} {t : Ty} (h : valueType kind name e = .ok t) :
    t = .named name := by
  unfold valueType at h
  split at h
  · cases h
  · exact (Except.ok.inj h).symm

theorem param_ok {p : Param} (h : param kind e = .ok p) :
    (∃ span, e = .ident p.name span ∧ p.type = .named p.name) ∨
      (∃ place span, e = .list [.ident p.name place] span ∧ p.type = .list (.named p.name)) ∨
      ∃ place rhs span, e = .typed (.ident p.name place) rhs span ∧ ty kind rhs = .ok p.type := by
  unfold param at h
  split at h
  · obtain ⟨t, ht, h⟩ := Outcome.bind_eq_ok.mp h
    cases h
    exact .inl ⟨_, rfl, valueType_ok ht⟩
  · split at h
    · obtain ⟨t, ht, h⟩ := Outcome.bind_eq_ok.mp h
      cases h
      exact .inr (.inl ⟨_, _, rfl, congrArg Ty.list (valueType_ok ht)⟩)
    · cases h
  · cases h
  · split at h
    · obtain ⟨t, ht, h⟩ := Outcome.bind_eq_ok.mp h
      cases h
      exact .inr (.inr ⟨_, _, _, rfl, ht⟩)
    · cases h
  · cases h

/-- An item is a label, or a value that is written like an argument. -/
theorem resultItem_ok {i : ResultItem} (h : resultItem kind e = .ok i) :
    (∃ symbol, i = .ofLabel symbol) ∨ ∃ p, param kind e = .ok p ∧ i = .ofValue p.name p.type := by
  unfold resultItem at h
  split at h
  · cases h
    exact .inl ⟨_, rfl⟩
  · split at h
    · split at h
      · cases h
        exact .inl ⟨_, rfl⟩
      · cases h
    · split at h
      · cases h
      · obtain ⟨p, hp, h⟩ := Outcome.bind_eq_ok.mp h
        exact .inr ⟨p, hp, (Except.ok.inj h).symm⟩
  · obtain ⟨p, hp, h⟩ := Outcome.bind_eq_ok.mp h
    exact .inr ⟨p, hp, (Except.ok.inj h).symm⟩

theorem clause_eq (kind : String) (e : Expr) :
    clause kind e = (do .ok ⟨← e.items.mapM (resultItem kind), e.span⟩) := by
  unfold clause
  split
  · rfl
  · rename_i he
    rw [Expr.items_of_ne_tuple he, List.mapM_cons]
    cases resultItem kind e <;> rfl

theorem exists_of_mem_clause {c : RawClause} (h : clause kind e = .ok c) {i : ResultItem}
    (hi : i ∈ c.items) : ∃ part ∈ e.items, resultItem kind part = .ok i := by
  rw [clause_eq] at h
  obtain ⟨items, hitems, h⟩ := Outcome.bind_eq_ok.mp h
  cases h
  exact Outcome.exists_of_mem_mapM hitems hi

theorem memberType_ok {t : Ty} (h : memberType kind e = .ok t) :
    (∃ name span, e = .ident name span ∧ t = .named name) ∨
      ∃ name place span, e = .list [.ident name place] span ∧ t = .list (.named name) := by
  unfold memberType at h
  split at h
  · exact .inl ⟨_, _, rfl, valueType_ok h⟩
  · obtain ⟨u, hu, h⟩ := Outcome.bind_eq_ok.mp h
    cases h
    exact .inr ⟨_, _, _, rfl, congrArg Ty.list (valueType_ok hu)⟩
  · cases h
  · cases h

end values

/-! ## How declarations are read -/

/-- **What a declaration can be read as**, and what it has to look like for that. -/
inductive Read (d : Declaration) : Record → Prop
  | moduleName (name : String) : d.kind.name = "module" → Read d (.moduleName name)
  | interface {tags : Option Interface} : d.kind.name = "interface" → tags ≠ some (.many []) →
    Read d (.interface tags)
  | stateType (name : String) : d.kind.name = "state_type" → Read d (.stateType name)
  | function {head result : Expr} {span : Span} {name : String} {args : List Expr}
    {params : List Param} {results : List RawClause} : d.kind.name = "spec" →
    d.payload = [.typed head result span] → functionHead d.kind.name head = .ok (name, args) →
    args.mapM (param d.kind.name) = .ok params →
    result.alternatives.mapM (clause d.kind.name) = .ok results →
    Read d (.function ⟨name, params, results, span⟩)
  | struct {name : String} {place : Span} {backing : List String} {entries : List (Ident × Expr)}
    {span span' : Span} {ms : List Member} : d.kind.name = "type" →
    d.payload = [.typed (.ident name place) (.map backing entries span) span'] →
    members d.kind.name [] entries = .ok ms → Read d (.struct ⟨name, Text.join "." backing, ms⟩)
  | enum {name : String} {place : Span} {body : Expr} {span : Span} {vs : List String} :
    d.kind.name = "type" → d.payload = [.typed (.ident name place) body span] →
    body.alternatives.mapM (variant d.kind.name) = .ok vs → Read d (.enum ⟨name, vs⟩)
  | dirty (marks : List DirtyMark) : d.kind.name = "dirty" → Read d (.dirty marks)
  | callback (c : Callback) : d.kind.name = "callback" → Read d (.callback c)
  | sends {e : Expr} {c : RawClause} : d.kind.name = "sends" → d.payload = [e] →
    clause d.kind.name e = .ok c → Read d (.sends c)

section declarations
variable {d : Declaration} {r : Record}

theorem payload_of_onlyPayload {e : Expr} (h : onlyPayload d = .ok e) : d.payload = [e] := by
  unfold onlyPayload at h
  split at h
  · cases h
    assumption
  · cases h

theorem Read.of_readModule (hkind : d.kind.name = "module") (h : readModule d = .ok r) :
    Read d r := by
  obtain ⟨e, -, h⟩ := Outcome.bind_eq_ok.mp h
  split at h
  · cases h
    exact .moduleName _ hkind
  · cases h

theorem Read.of_readInterface (hkind : d.kind.name = "interface") (h : readInterface d = .ok r) :
    Read d r := by
  obtain ⟨e, -, h⟩ := Outcome.bind_eq_ok.mp h
  split at h
  · cases h
    exact .interface hkind fun hnone => nomatch hnone
  · rename_i tags _ hne
    obtain ⟨ts, hts, h⟩ := Outcome.bind_eq_ok.mp h
    cases h
    refine .interface hkind ?_
    rintro ⟨⟩
    exact hne (List.forall₂_nil_right_iff.mp (Outcome.mapM_eq_ok.mp hts))
  · obtain ⟨t, -, h⟩ := Outcome.bind_eq_ok.mp h
    cases h
    exact .interface hkind fun hmany => nomatch hmany

theorem Read.of_readStateType (hkind : d.kind.name = "state_type") (h : readStateType d = .ok r) :
    Read d r := by
  obtain ⟨e, -, h⟩ := Outcome.bind_eq_ok.mp h
  split at h
  · split at h
    · cases h
    · cases h
      exact .stateType _ hkind
  · cases h
    exact .stateType _ hkind
  · cases h
    exact .stateType _ hkind
  · cases h

theorem Read.of_readFunction (hkind : d.kind.name = "spec") (h : readFunction d = .ok r) :
    Read d r := by
  obtain ⟨e, he, h⟩ := Outcome.bind_eq_ok.mp h
  split at h
  · obtain ⟨⟨name, args⟩, hhead, h⟩ := Outcome.bind_eq_ok.mp h
    obtain ⟨params, hparams, h⟩ := Outcome.bind_eq_ok.mp h
    obtain ⟨results, hresults, h⟩ := Outcome.bind_eq_ok.mp h
    cases h
    exact .function hkind (payload_of_onlyPayload he) hhead hparams hresults
  · cases h

theorem Read.of_readType (hkind : d.kind.name = "type") (h : readType d = .ok r) : Read d r := by
  obtain ⟨e, he, h⟩ := Outcome.bind_eq_ok.mp h
  have hpayload := payload_of_onlyPayload he
  split at h
  · split at h
    · unfold typeBody at h
      split at h
      · obtain ⟨ms, hms, h⟩ := Outcome.bind_eq_ok.mp h
        cases h
        exact .struct hkind hpayload hms
      · obtain ⟨vs, hvs, h⟩ := Outcome.bind_eq_ok.mp h
        cases h
        exact .enum hkind hpayload hvs
      · obtain ⟨vs, hvs, h⟩ := Outcome.bind_eq_ok.mp h
        cases h
        exact .enum hkind hpayload hvs
      · cases h
    · cases h
  · cases h

theorem Read.of_readDirty (hkind : d.kind.name = "dirty") (h : readDirty d = .ok r) :
    Read d r := by
  unfold readDirty at h
  split at h
  · cases h
  · split at h
    · cases h
    · split at h
      · cases h
      · obtain ⟨found, -, h⟩ := Outcome.bind_eq_ok.mp h
        split at h
        · cases h
        · cases h
          exact .dirty found hkind

theorem Read.of_readCallback (hkind : d.kind.name = "callback") (h : readCallback d = .ok r) :
    Read d r := by
  unfold readCallback at h
  split at h
  · obtain ⟨hook, -, h⟩ := Outcome.bind_eq_ok.mp h
    cases h
    exact .callback _ hkind
  · obtain ⟨hook, -, h⟩ := Outcome.bind_eq_ok.mp h
    split at h
    · cases h
      exact .callback _ hkind
    · cases h
  · cases h

theorem Read.of_readSends (hkind : d.kind.name = "sends") (h : readSends d = .ok r) :
    Read d r := by
  obtain ⟨e, he, h⟩ := Outcome.bind_eq_ok.mp h
  obtain ⟨c, hc, h⟩ := Outcome.bind_eq_ok.mp h
  cases h
  exact .sends hkind (payload_of_onlyPayload he) hc

/-- All that is known of a record follows from how it was read. -/
theorem Read.of_ofDeclaration (h : ofDeclaration d = .ok r) : Read d r := by
  unfold ofDeclaration at h
  split at h
  · exact .of_readModule ‹_› h
  · exact .of_readInterface ‹_› h
  · exact .of_readStateType ‹_› h
  · exact .of_readFunction ‹_› h
  · exact .of_readType ‹_› h
  · exact .of_readDirty ‹_› h
  · exact .of_readCallback ‹_› h
  · exact .of_readSends ‹_› h
  · cases h

end declarations

/-! ## Types and values -/

theorem ty_isValue {t : Ty} (h : ty kind e = .ok t) : t.IsValue := by
  fun_induction ty kind e generalizing t with
  | case1 name span => exact ⟨name, by rw [valueType_ok h]; rfl⟩
  | case2 element _ ih =>
    obtain ⟨u, hu, rfl⟩ := Outcome.map_eq_ok.mp h
    obtain ⟨name, hname⟩ := ih hu
    exact ⟨name, hname⟩
  | case3 => cases h
  | case4 => cases h

theorem param_isValue {p : Param} (h : param kind e = .ok p) : p.type.IsValue := by
  rcases param_ok h with ⟨_, -, htype⟩ | ⟨_, _, -, htype⟩ | ⟨_, _, _, -, htype⟩
  · exact ⟨p.name, by rw [htype]; rfl⟩
  · exact ⟨p.name, by rw [htype]; rfl⟩
  · exact ty_isValue htype

theorem resultItem_wellTyped {i : ResultItem} (h : resultItem kind e = .ok i) : i.WellTyped := by
  rcases resultItem_ok h with ⟨symbol, rfl⟩ | ⟨p, hp, rfl⟩
  · rfl
  · exact param_isValue hp

theorem clause_wellTyped {c : RawClause} (h : clause kind e = .ok c) :
    ∀ i ∈ c.items, i.WellTyped := by
  intro i hi
  obtain ⟨part, -, hpart⟩ := exists_of_mem_clause h hi
  exact resultItem_wellTyped hpart

/-! ## Structs and enums -/

theorem memberType_isValue {t : Ty} (h : memberType kind e = .ok t) : t.IsValue := by
  rcases memberType_ok h with ⟨name, _, -, rfl⟩ | ⟨name, _, _, -, rfl⟩
  · exact ⟨name, rfl⟩
  · exact ⟨name, rfl⟩

/-- The fields of a struct have different names, none of them seen before, and types of values. -/
theorem members_ok {seen : List String} {entries : List (Ident × Expr)} {ms : List Member}
    (h : members kind seen entries = .ok ms) :
    (ms.map (·.name)).Nodup ∧ (∀ m ∈ ms, m.name ∉ seen) ∧ ∀ m ∈ ms, m.type.IsValue := by
  induction entries generalizing seen ms with
  | nil =>
    cases h
    simp
  | cons entry rest ih =>
    obtain ⟨key, value⟩ := entry
    simp only [members] at h
    split at h
    · cases h
    · rename_i hkey
      obtain ⟨t, ht, h⟩ := Outcome.bind_eq_ok.mp h
      obtain ⟨tail, htail, h⟩ := Outcome.bind_eq_ok.mp h
      cases h
      obtain ⟨hnodup, hseen, hvalue⟩ := ih htail
      refine ⟨?_, ?_, ?_⟩
      · rw [List.map_cons, List.nodup_cons]
        refine ⟨fun hmem => ?_, hnodup⟩
        obtain ⟨m, hm, hname⟩ := List.mem_map.mp hmem
        exact hseen m hm (hname ▸ List.mem_cons_self)
      · intro m hm
        rcases List.mem_cons.mp hm with rfl | hm
        · simpa using hkey
        · exact fun hs => hseen m hm (List.mem_cons_of_mem _ hs)
      · intro m hm
        rcases List.mem_cons.mp hm with rfl | hm
        · exact memberType_isValue ht
        · exact hvalue m hm

theorem alternatives_ne_nil (e : Expr) : e.alternatives ≠ [] := by
  fun_induction Expr.alternatives e with
  | case1 lhs rhs _ ihl ihr => simp [ihl]
  | case2 => simp

/-- There is a variant for each alternative. -/
theorem variants_ne_nil {body : Expr} {vs : List String}
    (h : body.alternatives.mapM (variant kind) = .ok vs) : vs ≠ [] := by
  rintro rfl
  have hnil := Outcome.mapM_eq_ok.mp h
  rw [List.forall₂_nil_right_iff] at hnil
  exact alternatives_ne_nil body hnil

/-- The record of every declaration is well formed. -/
theorem wellFormed_of_ofDeclaration {d : Declaration} {r : Record} (h : ofDeclaration d = .ok r) :
    r.WellFormed := by
  cases Read.of_ofDeclaration h with
  | moduleName | stateType | dirty | callback => trivial
  | interface _ htags => exact htags
  | function _ _ _ hparams hresults =>
    refine ⟨fun p hp => ?_, fun c hc => ?_⟩
    · obtain ⟨arg, -, harg⟩ := Outcome.exists_of_mem_mapM hparams hp
      exact param_isValue harg
    · obtain ⟨alternative, -, halt⟩ := Outcome.exists_of_mem_mapM hresults hc
      exact clause_wellTyped halt
  | struct _ _ hms =>
    obtain ⟨hnodup, -, hvalue⟩ := members_ok hms
    exact ⟨hnodup, hvalue⟩
  | enum _ _ hvs => exact variants_ne_nil hvs
  | sends _ _ hc => exact clause_wellTyped hc

end Record
end NativeInterface
