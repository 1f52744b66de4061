import NativeInterface.Proofs.Clauses

/-!
# Checks and effects of records

To apply a record is to check it against the builder and to put it in. The check reads the scope and
the functions so far (`Builder.Admits`); what is put in does not depend on it (`Builder.put`). All
that a run over declarations does is said by `Builder.add_eq_ok_iff`.
-/

namespace NativeInterface

/-! ## Indexed clauses -/

namespace RawClause

/-- The clause of a function with the accessor that its labels name. -/
def indexed (function : String) (c : RawClause) : Clause := ⟨c.items, c.accessor function⟩

/-- The message with the accessor that its labels name. -/
def sent (c : RawClause) : Clause := ⟨c.items, c.sendAccessor⟩

theorem eq_of_indexFrom {function : String} {index : Nat} {seen : List String}
    {cs : List RawClause} {results : List Clause}
    (h : indexFrom function index seen cs = .ok results) : results = cs.map (indexed function) := by
  induction cs generalizing index seen results with
  | nil =>
    cases h
    rfl
  | cons c cs ih =>
    obtain ⟨_, _, h⟩ := Outcome.bind_eq_ok.mp h
    dsimp only at h
    split at h
    · cases h
    · obtain ⟨rest, hrest, h⟩ := Outcome.bind_eq_ok.mp h
      cases h
      rw [List.map_cons, ← ih hrest]
      rfl

theorem eq_of_indexSend {c : RawClause} {sent : Clause} (h : c.indexSend = .ok sent) :
    sent = c.sent := by
  obtain ⟨_, _, h⟩ := Outcome.bind_eq_ok.mp h
  exact (Except.ok.inj h).symm

end RawClause

/-- The function with its clauses indexed. -/
def RawFunction.indexed (f : RawFunction) : NativeFunction :=
  ⟨f.name, f.params.length, f.params, f.results.map (RawClause.indexed f.name)⟩

namespace Builder
variable {b b' : Builder} {span : Span} {r : Record}

/-! ## Records -/

/-- What has to hold where a record is applied. -/
def Admits (b : Builder) (span : Span) : Record → Prop
  | .function f =>
    b.hasFunction f.name f.params.length = false ∧ b.scope.checkFunction f = .ok () ∧
      RawClause.index f.name f.results = .ok f.indexed.results
  | .struct s => b.scope.isDeclared s.name = false ∧ b.scope.checkStruct span s = .ok ()
  | .enum e => b.scope.isDeclared e.name = false
  | .sends c =>
    b.scope.checkTypes RawClause.sendsName c.span (Scope.valueTypes c) = .ok () ∧
      c.indexSend = .ok c.sent
  | .moduleName _ | .interface _ | .stateType _ | .dirty _ | .callback _ => True

/-- The builder with a record in it, whether or not it was checked. -/
def put (b : Builder) : Record → Builder
  | .moduleName name => { b with moduleName := some name }
  | .interface tags => { b with interface := tags }
  | .stateType name => { b with stateType := some name }
  | .function f => { b with functions := b.functions ++ [f.indexed] }
  | .struct s => { b with structs := b.structs ++ [s], scope := b.scope.declare s.name }
  | .enum e => { b with enums := b.enums ++ [e], scope := b.scope.declare e.name }
  | .dirty marks => { b with dirty := marks.foldl DirtyMark.put b.dirty }
  | .callback c => { b with callbacks := Callback.put b.callbacks c }
  | .sends c => { b with sends := some c.sent }

theorem addFunction_eq_ok_iff {f : RawFunction} :
    b.addFunction f = .ok b' ↔ b.Admits span (.function f) ∧ b.put (.function f) = b' := by
  simp only [addFunction, Admits]
  cases hdup : b.hasFunction f.name f.params.length with
  | true => simp
  | false =>
    rw [if_neg Bool.false_ne_true, Outcome.bind_eq_ok]
    constructor
    · rintro ⟨_, hcheck, h⟩
      obtain ⟨results, hresults, h⟩ := Outcome.bind_eq_ok.mp h
      cases RawClause.eq_of_indexFrom hresults
      exact ⟨⟨rfl, hcheck, hresults⟩, Except.ok.inj h⟩
    · rintro ⟨⟨-, hcheck, hresults⟩, rfl⟩
      exact ⟨(), hcheck, Outcome.bind_eq_ok.mpr ⟨_, hresults, rfl⟩⟩

theorem addStruct_eq_ok_iff {s : Struct} :
    b.addStruct span s = .ok b' ↔ b.Admits span (.struct s) ∧ b.put (.struct s) = b' := by
  simp only [addStruct, Admits]
  cases hdup : b.scope.isDeclared s.name with
  | true => simp
  | false =>
    rw [if_neg Bool.false_ne_true, Outcome.bind_eq_ok]
    constructor
    · rintro ⟨_, hcheck, h⟩
      exact ⟨⟨rfl, hcheck⟩, Except.ok.inj h⟩
    · rintro ⟨⟨-, hcheck⟩, rfl⟩
      exact ⟨(), hcheck, rfl⟩

theorem addEnum_eq_ok_iff {e : Enum} :
    b.addEnum span e = .ok b' ↔ b.Admits span (.enum e) ∧ b.put (.enum e) = b' := by
  simp only [addEnum, Admits]
  cases hdup : b.scope.isDeclared e.name with
  | true => simp
  | false => simp [put]

theorem addSends_eq_ok_iff {c : RawClause} :
    b.addSends c = .ok b' ↔ b.Admits span (.sends c) ∧ b.put (.sends c) = b' := by
  rw [addSends, Outcome.bind_eq_ok]
  constructor
  · rintro ⟨_, hcheck, h⟩
    obtain ⟨sent, hsent, h⟩ := Outcome.bind_eq_ok.mp h
    cases RawClause.eq_of_indexSend hsent
    exact ⟨⟨hcheck, hsent⟩, Except.ok.inj h⟩
  · rintro ⟨⟨hcheck, hsent⟩, rfl⟩
    exact ⟨(), hcheck, Outcome.bind_eq_ok.mpr ⟨_, hsent, rfl⟩⟩

theorem apply_eq_ok_iff : b.apply span r = .ok b' ↔ b.Admits span r ∧ b.put r = b' := by
  cases r with
  | function f => exact addFunction_eq_ok_iff
  | struct s => exact addStruct_eq_ok_iff
  | enum e => exact addEnum_eq_ok_iff
  | sends c => exact addSends_eq_ok_iff
  | moduleName | interface | stateType | dirty | callback => simp [apply, put, Admits]

/-- **What a declaration does**: it is read, checked and put in. -/
theorem add_eq_ok_iff {d : Declaration} :
    b.add d = .ok b' ↔
      ∃ r, Record.ofDeclaration d = .ok r ∧ b.Admits d.span r ∧ b.put r = b' := by
  simp only [add, Outcome.bind_eq_ok, apply_eq_ok_iff]

/-- All declarations of a successful run are read, and each record was checked at its turn. -/
theorem exists_records {ds : List Declaration} (h : ds.foldlM add b = .ok b') :
    ∃ rs, ds.mapM Record.ofDeclaration = .ok rs ∧ rs.foldl put b = b' ∧
      ∀ r ∈ rs, ∃ (c : Builder) (span : Span), c.Admits span r := by
  induction ds generalizing b with
  | nil =>
    cases h
    exact ⟨[], rfl, rfl, fun r hr => (List.not_mem_nil hr).elim⟩
  | cons d ds ih =>
    rw [List.foldlM_cons] at h
    obtain ⟨c, hc, h⟩ := Outcome.bind_eq_ok.mp h
    obtain ⟨r, hr, hadmits, rfl⟩ := add_eq_ok_iff.mp hc
    obtain ⟨rs, hrs, hput, hall⟩ := ih h
    refine ⟨r :: rs, ?_, hput, ?_⟩
    · exact Outcome.mapM_eq_ok.mpr (.cons hr (Outcome.mapM_eq_ok.mp hrs))
    · exact List.forall_mem_cons.mpr ⟨⟨b, d.span, hadmits⟩, hall⟩

end Builder
end NativeInterface
