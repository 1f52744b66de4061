import NativeInterface.Proofs.Symbols

/-!
# Clauses and type positions

What holds of every clause of a built surface, and where the type of labels can stand. The shape of
an item is settled when its declaration is read, labels and value names are checked when the clause
is indexed, and the builder only puts the parts together.
-/

namespace NativeInterface

/-- The type of labels stands in the type, at any depth. -/
def Ty.HasLabel : Ty → Prop
  | .named _ => False
  | .list element => element.HasLabel
  | .label => True

theorem Ty.IsValue.not_hasLabel {t : Ty} (h : t.IsValue) : ¬t.HasLabel := by
  obtain ⟨name, hname⟩ := h
  induction t with
  | named => exact id
  | list element ih => exact ih hname
  | label => cases hname

namespace Record
variable {d : Declaration} {r : Record}

/-! ## How a record was read -/

/-- The word that a declaration of this record starts with. -/
def kind : Record → String
  | .moduleName _ => "module"
  | .interface _ => "interface"
  | .stateType _ => "state_type"
  | .function _ => "spec"
  | .struct _ | .enum _ => "type"
  | .dirty _ => "dirty"
  | .callback _ => "callback"
  | .sends _ => "sends"

/-- No two readers give the same kind of record. -/
theorem kind_of_ofDeclaration (h : ofDeclaration d = .ok r) : d.kind.name = r.kind := by
  cases Read.of_ofDeclaration h <;> assumption

end Record

/-! ## Items -/

/-- A label that is its own name, or a value of a type without labels. -/
inductive ResultItem.Shaped : ResultItem → Prop
  | label (symbol : String) : Shaped (.ofLabel symbol)
  | value (name : String) {type : Ty} : ¬type.HasLabel → Shaped (.ofValue name type)

namespace ResultItem.Shaped
variable {i : ResultItem}

theorem label_iff (h : i.Shaped) : i.label.isSome ↔ i.type = .label := by
  cases h with
  | label => exact ⟨fun _ => rfl, fun _ => rfl⟩
  | @value name type hvalue =>
    refine ⟨nofun, fun htype => absurd ?_ hvalue⟩
    obtain rfl : type = .label := htype
    trivial

theorem name_eq (h : i.Shaped) {symbol : String} (hlabel : i.label = some symbol) :
    i.name = symbol := by
  cases h with
  | label => exact Option.some.inj hlabel
  | value => cases hlabel

theorem not_hasLabel (h : i.Shaped) (hlabel : i.isLabel = false) : ¬i.type.HasLabel := by
  cases h with
  | label => cases hlabel
  | value _ hvalue => exact hvalue

end ResultItem.Shaped

namespace Record

theorem resultItem_shaped {kind : String} {e : Expr} {i : ResultItem}
    (h : resultItem kind e = .ok i) : i.Shaped := by
  rcases resultItem_ok h with ⟨symbol, rfl⟩ | ⟨p, hp, rfl⟩
  · exact .label symbol
  · exact .value p.name (param_isValue hp).not_hasLabel

theorem clause_shaped {kind : String} {e : Expr} {c : RawClause} (h : clause kind e = .ok c) :
    ∀ i ∈ c.items, i.Shaped := by
  intro i hi
  obtain ⟨part, -, hpart⟩ := exists_of_mem_clause h hi
  exact resultItem_shaped hpart

/-- A function has a clause for each alternative, and there is at least one. -/
theorem function_shaped {d : Declaration} {f : RawFunction}
    (h : ofDeclaration d = .ok (.function f)) :
    f.results ≠ [] ∧ ∀ c ∈ f.results, ∀ i ∈ c.items, i.Shaped := by
  cases Read.of_ofDeclaration h with
  | @function _ result _ _ _ _ _ _ _ _ _ hresults =>
    refine ⟨?_, fun c hc => ?_⟩
    · rintro rfl
      have hnil := Outcome.mapM_eq_ok.mp hresults
      rw [List.forall₂_nil_right_iff] at hnil
      exact alternatives_ne_nil result hnil
    · obtain ⟨alternative, -, halt⟩ := Outcome.exists_of_mem_mapM hresults hc
      exact clause_shaped halt

theorem sends_shaped {d : Declaration} {c : RawClause} (h : ofDeclaration d = .ok (.sends c)) :
    ∀ i ∈ c.items, i.Shaped := by
  cases Read.of_ofDeclaration h with
  | sends _ _ hc => exact clause_shaped hc

end Record

/-! ## Clauses -/

/-- **What code generation relies on in a clause.** An item has a label exactly if it is of the type
of labels, and is then called by it; no other item has that type inside its own. There is a label,
and the values have different names. -/
structure Clause.WellFormed (c : Clause) : Prop where
  label_iff : ∀ i ∈ c.items, i.label.isSome ↔ i.type = .label
  name_eq : ∀ i ∈ c.items, ∀ symbol ∈ i.label, i.name = symbol
  values : ∀ i ∈ c.values, ¬i.type.HasLabel
  labels_ne_nil : c.labels ≠ []
  names_nodup : (c.values.map (·.name)).Nodup

namespace RawClause

theorem firstRepeated_eq_none {seen names : List String} (h : firstRepeated seen names = none) :
    names.Nodup ∧ ∀ name ∈ names, name ∉ seen := by
  induction names generalizing seen with
  | nil => simp
  | cons name names ih =>
    rw [firstRepeated] at h
    split at h
    · cases h
    · rename_i hname
      obtain ⟨hnodup, hseen⟩ := ih h
      constructor
      · rw [List.nodup_cons]
        exact ⟨fun hmem => hseen name hmem List.mem_cons_self, hnodup⟩
      · refine List.forall_mem_cons.mpr ⟨by simpa using hname, fun other hother hmem => ?_⟩
        exact hseen other hother (List.mem_cons_of_mem _ hmem)

variable {function : String} {index : Nat} {c : RawClause}

/-- A clause of shaped items that passes its check is well formed under any accessor. -/
theorem wellFormed_of_check (h : c.check function index = .ok ()) (hitems : ∀ i ∈ c.items, i.Shaped)
    (accessor : String) : Clause.WellFormed ⟨c.items, accessor⟩ := by
  unfold check at h
  split at h
  · cases h
  · rename_i hlabels
    split at h
    · cases h
    · rename_i hnames
      refine ⟨fun i hi => (hitems i hi).label_iff, fun i hi _ => (hitems i hi).name_eq,
        fun i hi => ?_, fun hnil => ?_, (firstRepeated_eq_none hnames).1⟩
      · obtain ⟨hi, hlabel⟩ := List.mem_filter.mp hi
        exact (hitems i hi).not_hasLabel (by simpa using hlabel)
      · exact hlabels (List.isEmpty_iff.mpr hnil)

theorem wellFormed_of_indexFrom {seen : List String} {cs : List RawClause} {results : List Clause}
    (h : indexFrom function index seen cs = .ok results)
    (hitems : ∀ c ∈ cs, ∀ i ∈ c.items, i.Shaped) : ∀ c ∈ results, c.WellFormed := by
  induction cs generalizing index seen results with
  | nil =>
    cases h
    exact fun c hc => nomatch hc
  | cons c cs ih =>
    obtain ⟨_, hcheck, h⟩ := Outcome.bind_eq_ok.mp h
    obtain ⟨hfirst, hrest⟩ := List.forall_mem_cons.mp hitems
    dsimp only at h
    split at h
    · cases h
    · obtain ⟨rest, hindex, h⟩ := Outcome.bind_eq_ok.mp h
      cases h
      exact List.forall_mem_cons.mpr ⟨wellFormed_of_check hcheck hfirst _, ih hindex hrest⟩

theorem wellFormed_of_indexSend {sent : Clause} (h : c.indexSend = .ok sent)
    (hitems : ∀ i ∈ c.items, i.Shaped) : sent.WellFormed := by
  obtain ⟨_, hcheck, h⟩ := Outcome.bind_eq_ok.mp h
  cases h
  exact wellFormed_of_check hcheck hitems _

end RawClause

/-! ## Surfaces -/

/-- All clauses so far are well formed, and no function is without one. -/
structure Builder.WellFormed (b : Builder) : Prop where
  functions : ∀ f ∈ b.functions, f.results ≠ [] ∧ ∀ c ∈ f.results, c.WellFormed
  sends : ∀ c ∈ b.sends, c.WellFormed

theorem Builder.WellFormed.add {b b' : Builder} (h : b.WellFormed) {d : Declaration}
    (hadd : b.add d = .ok b') : b'.WellFormed := by
  obtain ⟨r, hr, hadd⟩ := Outcome.bind_eq_ok.mp hadd
  cases r with
  | function f =>
    obtain ⟨-, -, results, hresults, rfl⟩ := addFunction_ok hadd
    obtain ⟨hne, hitems⟩ := Record.function_shaped hr
    refine ⟨fun g hg => ?_, h.sends⟩
    rcases List.mem_append.mp hg with hg | hg
    · exact h.functions g hg
    · rw [List.mem_singleton.mp hg]
      refine ⟨fun hnil => ?_, RawClause.wellFormed_of_indexFrom hresults hitems⟩
      have hlength := RawClause.indexFrom_items hresults
      rw [show results = [] from hnil] at hlength
      exact hne (List.map_eq_nil_iff.mp hlength.symm)
  | sends c =>
    obtain ⟨-, sent, hsent, rfl⟩ := addSends_ok hadd
    refine ⟨h.functions, fun c' hc' => ?_⟩
    cases hc'
    exact RawClause.wellFormed_of_indexSend hsent (Record.sends_shaped hr)
  | struct s =>
    obtain ⟨-, -, rfl⟩ := addStruct_ok hadd
    exact ⟨h.functions, h.sends⟩
  | enum e =>
    obtain ⟨-, rfl⟩ := addEnum_ok hadd
    exact ⟨h.functions, h.sends⟩
  | moduleName | interface | stateType | dirty | callback =>
    cases hadd
    exact ⟨h.functions, h.sends⟩

namespace Surface
variable {name : String} {ds : List Declaration} {s : Surface}

theorem wellFormed_of_build (h : build name ds = .ok s) :
    (∀ f ∈ s.functions, f.results ≠ [] ∧ ∀ c ∈ f.results, c.WellFormed) ∧
      ∀ c ∈ s.sends, c.WellFormed := by
  obtain ⟨b, hb, h⟩ := Outcome.bind_eq_ok.mp h
  cases h
  have hstart : (Builder.ofName name).WellFormed :=
    ⟨nofun, nofun⟩
  have hbuilt : b.WellFormed :=
    @Outcome.foldlM_induction _ _ _ _ (fun _ b => b.WellFormed) (fun hdone hadd => hdone.add hadd)
      _ _ [] ds hstart hb
  exact ⟨hbuilt.functions, hbuilt.sends⟩

theorem Resolves.not_hasLabel {front : List Declaration} {t : Ty} (h : s.Resolves front t) :
    ¬t.HasLabel := by
  obtain ⟨leaf, hleaf, -⟩ := h
  exact Ty.IsValue.not_hasLabel ⟨leaf, hleaf⟩

/-- **Clauses and type positions of a built surface.** Every function has a clause. Every clause, of
a function or of the message, is well formed and has the accessor that its labels name, and the
accessors of one function are different. The type of labels stands in no argument and in no field.
-/
theorem clauses_of_build (h : build name ds = .ok s) :
    (∀ f ∈ s.functions, f.results ≠ [] ∧
        (∀ c ∈ f.results, c.WellFormed ∧
          c.accessor = f.name ++ "_result_" ++ Text.join "_" c.labels) ∧
        (f.results.map (·.accessor)).Nodup ∧ ∀ p ∈ f.params, ¬p.type.HasLabel) ∧
      (∀ c ∈ s.sends, c.WellFormed ∧ c.accessor = "send_" ++ Text.join "_" c.labels) ∧
      ∀ t ∈ s.structs, ∀ m ∈ t.members, ¬m.type.HasLabel := by
  obtain ⟨hfunctions, hsends⟩ := wellFormed_of_build h
  obtain ⟨hindexed, hsent⟩ := indexed_of_build h
  obtain ⟨b, rfl, -, hresolved⟩ := exists_builder h
  refine ⟨fun f hf => ?_, fun c hc => ⟨hsends c hc, hsent c hc⟩, fun t ht m hm => ?_⟩
  · obtain ⟨hne, hclauses⟩ := hfunctions f hf
    obtain ⟨haccessors, hnodup⟩ := hindexed f hf
    obtain ⟨_, _, -, -, -, -, hparams, -⟩ := hresolved.surface.functions hf
    exact ⟨hne, fun c hc => ⟨hclauses c hc, haccessors c hc⟩, hnodup,
      fun p hp => (hparams p hp).not_hasLabel⟩
  · obtain ⟨j, hj⟩ := List.mem_iff_getElem?.mp ht
    obtain ⟨leaf, hleaf, -⟩ := hresolved.surface.members hj hm
    exact Ty.IsValue.not_hasLabel ⟨leaf, hleaf⟩

/-- A function with a bare label, a label spelled as a typed name beside two values, and a message.
-/
theorem clauses_of_build_alternatives :
    let word (name : String) : Expr := .ident name {}
    let ok : Expr := .tuple [.typed (word "ok") (word "label") {}, .list [word "int"] {},
      .typed (word "n") (word "int") {}] {}
    let ds : List Declaration :=
      [⟨⟨"spec", {}⟩,
          [.typed (.call ⟨"f", {}⟩ [word "int"] {}) (.alt (.atom "no" {}) ok {}) {}], {}⟩,
        ⟨⟨"sends", {}⟩, [ok], {}⟩]
    ∃ s, build "m" ds = .ok s ∧ s.functions.map (·.results.map (·.accessor)) =
        [["f_result_no", "f_result_ok"]] ∧
      (∀ f ∈ s.functions, ∀ c ∈ f.results, c.WellFormed) ∧
      ∃ c ∈ s.sends, c.WellFormed ∧ c.accessor = "send_ok" ∧ c.values.length = 2 := by
  intro word ok ds
  have h : build "m" ds = .ok _ := rfl
  obtain ⟨hfunctions, hsends, -⟩ := clauses_of_build h
  refine ⟨_, h, rfl, fun f hf c hc => ((hfunctions f hf).2.1 c hc).1, _, rfl, ?_, rfl, rfl⟩
  exact (hsends _ rfl).1

end Surface
end NativeInterface
