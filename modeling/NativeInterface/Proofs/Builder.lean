import NativeInterface.Proofs.Record
import NativeInterface.Surface.Builder

/-!
# The keys of a builder

Whatever declarations are applied, functions, types, scheduling marks and callbacks can be told
apart by their keys, and the scope holds exactly the types. `Builder.WellKeyed` bundles these facts;
it holds at the start and every declaration preserves it.
-/

namespace NativeInterface

section putBy
variable {α κ : Type} [DecidableEq κ] {key : α → κ}

theorem mem_map_putBy {xs : List α} {x : α} {k : κ} :
    k ∈ (putBy key xs x).map key ↔ k = key x ∨ k ∈ xs.map key := by
  induction xs with
  | nil => simp [putBy]
  | cons y ys ih =>
    rw [putBy]
    split
    · rename_i hkey
      simp [hkey]
    · rw [List.map_cons, List.mem_cons, ih, List.map_cons, List.mem_cons]
      exact or_left_comm

/-- Different keys stay different. -/
theorem nodup_map_putBy {xs : List α} (h : (xs.map key).Nodup) (x : α) :
    ((putBy key xs x).map key).Nodup := by
  induction xs with
  | nil => simp [putBy]
  | cons y ys ih =>
    rw [List.map_cons, List.nodup_cons] at h
    rw [putBy]
    split
    · rename_i hkey
      rw [List.map_cons, List.nodup_cons, ← hkey]
      exact h
    · rename_i hkey
      rw [List.map_cons, List.nodup_cons, mem_map_putBy]
      exact ⟨fun hmem => hmem.elim hkey h.1, ih h.2⟩

theorem nodup_map_foldl_putBy {xs : List α} (h : (xs.map key).Nodup) (ys : List α) :
    ((ys.foldl (putBy key) xs).map key).Nodup := by
  induction ys generalizing xs with
  | nil => exact h
  | cons y ys ih => exact ih (nodup_map_putBy h y)

end putBy

namespace Scope

theorem isDeclared_iff {s : Scope} {name : String} : s.isDeclared name ↔ name ∈ s.declared :=
  List.contains_iff_mem

/-- Declaring a name adds that name and nothing else. -/
theorem mem_declare {s : Scope} {name other : String} :
    other ∈ (s.declare name).declared ↔ other = name ∨ other ∈ s.declared := by
  unfold declare
  split
  · rename_i hname
    refine ⟨.inr, ?_⟩
    rintro (rfl | hmem)
    · exact isDeclared_iff.mp hname
    · exact hmem
  · rw [List.mem_append, List.mem_singleton, or_comm]

end Scope

/-- Functions are told apart by name and arity. -/
def NativeFunction.key (f : NativeFunction) : String × Nat := (f.name, f.arity)

namespace Builder
variable {b b' : Builder}

/-- The names of the structs, then those of the enums. -/
def aliases (b : Builder) : List String := b.structs.map (·.name) ++ b.enums.map (·.name)

/-! ## What applying a record does -/

theorem hasFunction_iff {name : String} {arity : Nat} :
    b.hasFunction name arity ↔ (name, arity) ∈ b.functions.map (·.key) := by
  simp [hasFunction, NativeFunction.key]

theorem addFunction_ok {f : RawFunction} (h : b.addFunction f = .ok b') :
    (f.name, f.params.length) ∉ b.functions.map (·.key) ∧ b.scope.checkFunction f = .ok () ∧
      ∃ results, RawClause.index f.name f.results = .ok results ∧
        b' = { b with
          functions := b.functions ++ [⟨f.name, f.params.length, f.params, results⟩] } := by
  simp only [addFunction] at h
  split at h
  · cases h
  · rename_i hnew
    obtain ⟨_, hcheck, h⟩ := Outcome.bind_eq_ok.mp h
    obtain ⟨results, hresults, h⟩ := Outcome.bind_eq_ok.mp h
    exact ⟨fun hmem => hnew (hasFunction_iff.mpr hmem), hcheck, results, hresults,
      (Except.ok.inj h).symm⟩

theorem addStruct_ok {span : Span} {s : Struct} (h : b.addStruct span s = .ok b') :
    s.name ∉ b.scope.declared ∧ b.scope.checkStruct span s = .ok () ∧
      b' = { b with structs := b.structs ++ [s], scope := b.scope.declare s.name } := by
  simp only [addStruct] at h
  split at h
  · cases h
  · rename_i hnew
    obtain ⟨_, hcheck, h⟩ := Outcome.bind_eq_ok.mp h
    exact ⟨fun hmem => hnew (Scope.isDeclared_iff.mpr hmem), hcheck, (Except.ok.inj h).symm⟩

theorem addEnum_ok {span : Span} {e : Enum} (h : b.addEnum span e = .ok b') :
    e.name ∉ b.scope.declared ∧
      b' = { b with enums := b.enums ++ [e], scope := b.scope.declare e.name } := by
  simp only [addEnum] at h
  split at h
  · cases h
  · rename_i hnew
    exact ⟨fun hmem => hnew (Scope.isDeclared_iff.mpr hmem), (Except.ok.inj h).symm⟩

theorem addSends_ok {c : RawClause} (h : b.addSends c = .ok b') :
    b.scope.checkTypes RawClause.sendsName c.span (Scope.valueTypes c) = .ok () ∧
      ∃ sent, c.indexSend = .ok sent ∧ b' = { b with sends := some sent } := by
  obtain ⟨_, hcheck, h⟩ := Outcome.bind_eq_ok.mp h
  obtain ⟨sent, hsent, h⟩ := Outcome.bind_eq_ok.mp h
  exact ⟨hcheck, sent, hsent, (Except.ok.inj h).symm⟩

/-! ## The invariant -/

/-- **The keys of a builder.** All that is looked up by a key has different keys, the scope holds
the types and nothing else, and no list that has to hold something is empty. -/
structure WellKeyed (b : Builder) : Prop where
  functions : (b.functions.map (·.key)).Nodup
  arities : ∀ f ∈ b.functions, f.arity = f.params.length
  aliases : b.aliases.Nodup
  declared : ∀ name, name ∈ b.scope.declared ↔ name ∈ b.aliases
  members : ∀ s ∈ b.structs, (s.members.map (·.name)).Nodup
  variants : ∀ e ∈ b.enums, e.variants ≠ []
  dirty : (b.dirty.map (·.key)).Nodup
  callbacks : (b.callbacks.map (·.hook)).Nodup
  interface : b.interface ≠ some (.many [])

theorem wellKeyed_ofName (name : String) : (ofName name).WellKeyed where
  functions := List.nodup_nil
  arities := fun _ hf => nomatch hf
  aliases := List.nodup_nil
  declared := fun _ => Iff.rfl
  members := fun _ hs => nomatch hs
  variants := fun _ he => nomatch he
  dirty := List.nodup_nil
  callbacks := List.nodup_nil
  interface := fun h => nomatch h

namespace WellKeyed

section
variable (h : b.WellKeyed)
include h

theorem addFunction {f : RawFunction} (hadd : b.addFunction f = .ok b') : b'.WellKeyed := by
  obtain ⟨hnew, -, results, -, rfl⟩ := addFunction_ok hadd
  refine { h with functions := ?_, arities := fun g hg => ?_ }
  · rw [List.map_append, List.map_singleton, List.nodup_append_comm, List.singleton_append,
      List.nodup_cons]
    exact ⟨hnew, h.functions⟩
  · rcases List.mem_append.mp hg with hg | hg
    · exact h.arities g hg
    · rw [List.mem_singleton.mp hg]

theorem addStruct {span : Span} {s : Struct} (hs : (Record.struct s).WellFormed)
    (hadd : b.addStruct span s = .ok b') : b'.WellKeyed := by
  obtain ⟨hnew, -, rfl⟩ := addStruct_ok hadd
  have hperm : Builder.aliases
      { b with structs := b.structs ++ [s], scope := b.scope.declare s.name }
      |>.Perm (s.name :: b.aliases) := by
    simp only [Builder.aliases, List.map_append, List.map_singleton, List.append_assoc]
    exact List.perm_middle
  refine { h with aliases := ?_, declared := fun name => ?_, members := fun t ht => ?_ }
  · rw [hperm.nodup_iff, List.nodup_cons, ← h.declared]
    exact ⟨hnew, h.aliases⟩
  · rw [Scope.mem_declare, hperm.mem_iff, List.mem_cons, h.declared]
  · rcases List.mem_append.mp ht with ht | ht
    · exact h.members t ht
    · rw [List.mem_singleton.mp ht]
      exact hs.1

theorem addEnum {span : Span} {e : Enum} (he : (Record.enum e).WellFormed)
    (hadd : b.addEnum span e = .ok b') : b'.WellKeyed := by
  obtain ⟨hnew, rfl⟩ := addEnum_ok hadd
  have hperm : Builder.aliases { b with enums := b.enums ++ [e], scope := b.scope.declare e.name }
      |>.Perm (e.name :: b.aliases) := by
    simp only [Builder.aliases, List.map_append, List.map_singleton, ← List.append_assoc]
    exact List.perm_append_singleton ..
  refine { h with aliases := ?_, declared := fun name => ?_, variants := fun t ht => ?_ }
  · rw [hperm.nodup_iff, List.nodup_cons, ← h.declared]
    exact ⟨hnew, h.aliases⟩
  · rw [Scope.mem_declare, hperm.mem_iff, List.mem_cons, h.declared]
  · rcases List.mem_append.mp ht with ht | ht
    · exact h.variants t ht
    · rw [List.mem_singleton.mp ht]
      exact he

/-- The invariant survives each kind of record. -/
theorem apply {span : Span} {r : Record} (hr : r.WellFormed) (hadd : b.apply span r = .ok b') :
    b'.WellKeyed := by
  cases r with
  | moduleName name =>
    cases hadd
    exact { h with }
  | interface tags =>
    cases hadd
    exact { h with interface := hr }
  | stateType name =>
    cases hadd
    exact { h with }
  | function f => exact h.addFunction hadd
  | struct s => exact h.addStruct hr hadd
  | enum e => exact h.addEnum hr hadd
  | dirty marks =>
    cases hadd
    exact { h with dirty := nodup_map_foldl_putBy h.dirty marks }
  | callback c =>
    cases hadd
    exact { h with callbacks := nodup_map_putBy h.callbacks c }
  | sends c =>
    obtain ⟨-, sent, -, rfl⟩ := addSends_ok hadd
    exact { h with }

theorem add {d : Declaration} (hadd : b.add d = .ok b') : b'.WellKeyed := by
  obtain ⟨r, hr, hadd⟩ := Outcome.bind_eq_ok.mp hadd
  exact h.apply (Record.wellFormed_of_ofDeclaration hr) hadd

theorem addOrSkip (d : Declaration) : (b.addOrSkip d).WellKeyed := by
  unfold Builder.addOrSkip
  split
  · exact h.add ‹_›
  · exact h

/-- Any number of declarations keep the invariant. -/
theorem additions (ds : List Declaration) : (ds.foldl Builder.addOrSkip b).WellKeyed := by
  induction ds generalizing b with
  | nil => exact h
  | cons d ds ih => exact ih (h.addOrSkip d)

end

end WellKeyed

/-- Every builder that can be reached is well keyed, whichever declarations failed on the way. -/
theorem wellKeyed_of_reached (name : String) (ds : List Declaration) :
    (ds.foldl addOrSkip (ofName name)).WellKeyed :=
  (wellKeyed_ofName name).additions ds

end Builder
end NativeInterface
