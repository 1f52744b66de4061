import NativeInterface.Proofs.Effects

/-!
# Indexing the clauses of a function

Three rules: a clause has a label, its values have different names, and no two clauses have the same
accessor. `RawClause.index_iff` says that indexing succeeds exactly if all of them hold, and which
fault it gives otherwise: that of the first clause that breaks a rule behind the clauses in front of
it, and of the first rule that it breaks.
-/

namespace NativeInterface.RawClause

variable {function name : String} {place : Nat} {seen seen' names : List String} {c : RawClause}
  {cs : List RawClause} {results : List Clause} {fault : Fault}

/-! ## Names -/

/-- The first name of a list that stands in front of itself. -/
def IsFirstRepeated (name : String) (names : List String) : Prop :=
  ∃ front back, names = front ++ name :: back ∧ front.Nodup ∧ name ∈ front

theorem firstRepeated_eq_some_iff (hseen : seen.Nodup) :
    firstRepeated seen names = some name ↔
      ∃ front back, names = front ++ name :: back ∧ (seen.reverse ++ front).Nodup ∧
        name ∈ seen.reverse ++ front := by
  induction names generalizing seen with
  | nil => simp [firstRepeated]
  | cons first rest ih =>
    rw [firstRepeated]
    by_cases hfirst : first ∈ seen
    · rw [if_pos (List.contains_iff_mem.mpr hfirst)]
      constructor
      · intro h
        cases h
        exact ⟨[], rest, rfl, by simpa using hseen, by simpa using hfirst⟩
      · rintro ⟨_ | ⟨other, front⟩, back, hnames, hnodup, -⟩
        · cases hnames
          rfl
        · -- A front that goes past a name seen before repeats that name.
          cases hnames
          have hmem : first ∈ seen.reverse := List.mem_reverse.mpr hfirst
          exact absurd rfl ((List.nodup_append.mp hnodup).2.2 _ hmem _ List.mem_cons_self)
    · rw [if_neg fun h => hfirst (List.contains_iff_mem.mp h),
        ih (List.nodup_cons.mpr ⟨hfirst, hseen⟩)]
      simp only [List.reverse_cons, List.append_assoc, List.singleton_append]
      constructor
      · rintro ⟨front, back, rfl, hfront⟩
        exact ⟨first :: front, back, rfl, hfront⟩
      · rintro ⟨_ | ⟨other, front⟩, back, hnames, hnodup, hname⟩
        · cases hnames
          rw [List.append_nil, List.mem_reverse] at hname
          exact absurd hname hfirst
        · cases hnames
          exact ⟨front, back, rfl, hnodup, hname⟩

theorem isFirstRepeated_iff : IsFirstRepeated name names ↔ firstRepeated [] names = some name :=
  (firstRepeated_eq_some_iff List.nodup_nil).symm

theorem IsFirstRepeated.not_nodup (h : IsFirstRepeated name names) : ¬names.Nodup := by
  obtain ⟨front, back, rfl, -, hmem⟩ := h
  intro hnodup
  exact (List.nodup_append.mp hnodup).2.2 _ hmem _ List.mem_cons_self rfl

/-! ## One clause -/

/-- An item of the clause is a label. -/
def IsLabelled (c : RawClause) : Prop := ∃ i ∈ c.items, i.isLabel

theorem labels_isEmpty_iff : c.labels.isEmpty ↔ ¬c.IsLabelled := by
  simp [labels, IsLabelled, ResultItem.isLabel]

/-- The first rule that a clause breaks at a place, behind clauses with the accessors seen, and the
fault for it. -/
inductive Breaks (function : String) (place : Nat) (seen : List String) (c : RawClause) :
    Fault → Prop
  | unlabelled : ¬c.IsLabelled → Breaks function place seen c (.emptyLabelSet function place c.span)
  | repeatedValue {name : String} : c.IsLabelled → IsFirstRepeated name c.valueNames →
    Breaks function place seen c (.duplicateResultName function name c.span)
  | repeatedAccessor : c.IsLabelled → c.valueNames.Nodup → c.accessor function ∈ seen →
    Breaks function place seen c (.duplicateAccessor function (c.accessor function) c.span)

/-- The clause follows the rules behind clauses with the accessors seen. -/
structure Follows (function : String) (seen : List String) (c : RawClause) : Prop where
  labelled : c.IsLabelled
  values : c.valueNames.Nodup
  accessor : c.accessor function ∉ seen

/-- What indexing does with the clause at a place, before it goes on. -/
def accept (function : String) (place : Nat) (seen : List String) (c : RawClause) :
    Except Fault Unit := do
  c.check function place
  if seen.contains (c.accessor function) then
    .error (.duplicateAccessor function (c.accessor function) c.span)
  else .ok ()

theorem indexFrom_cons (function : String) (place : Nat) (seen : List String) (c : RawClause)
    (cs : List RawClause) :
    indexFrom function place seen (c :: cs) = (do
      c.accept function place seen
      let rest ← indexFrom function (place + 1) (c.accessor function :: seen) cs
      .ok (c.indexed function :: rest)) := by
  rw [indexFrom, accept]
  cases c.check function place with
  | error e => rfl
  | ok _ =>
    dsimp only [bind, Except.bind]
    split <;> rfl

theorem check_of_isLabelled (h : c.IsLabelled) :
    c.check function place = match firstRepeated [] c.valueNames with
      | some name => .error (.duplicateResultName function name c.span)
      | none => .ok () :=
  if_neg fun hempty => labels_isEmpty_iff.mp hempty h

theorem check_of_nodup (h : c.IsLabelled) (hvalues : c.valueNames.Nodup) :
    c.check function place = .ok () := by
  rw [check_of_isLabelled h]
  cases hrepeated : firstRepeated [] c.valueNames with
  | some name => exact absurd hvalues (isFirstRepeated_iff.mpr hrepeated).not_nodup
  | none => rfl

theorem Follows.accept (h : c.Follows function seen) : c.accept function place seen = .ok () := by
  rw [RawClause.accept, check_of_nodup h.labelled h.values]
  exact if_neg fun hseen => h.accessor (List.contains_iff_mem.mp hseen)

theorem Breaks.accept (h : c.Breaks function place seen fault) :
    c.accept function place seen = .error fault := by
  rw [RawClause.accept]
  cases h with
  | unlabelled hlabel =>
    rw [check, if_pos (labels_isEmpty_iff.mpr hlabel)]
    rfl
  | repeatedValue hlabel hvalue =>
    rw [check_of_isLabelled hlabel, isFirstRepeated_iff.mp hvalue]
    rfl
  | repeatedAccessor hlabel hvalues haccessor =>
    rw [check_of_nodup hlabel hvalues]
    exact if_pos (List.contains_iff_mem.mpr haccessor)

theorem follows_or_breaks (function : String) (place : Nat) (seen : List String) (c : RawClause) :
    c.Follows function seen ∨ ∃ fault, c.Breaks function place seen fault := by
  by_cases hlabel : c.IsLabelled
  · cases hrepeated : firstRepeated [] c.valueNames with
    | some name => exact .inr ⟨_, .repeatedValue hlabel (isFirstRepeated_iff.mpr hrepeated)⟩
    | none =>
      have hvalues := (firstRepeated_eq_none hrepeated).1
      by_cases haccessor : c.accessor function ∈ seen
      · exact .inr ⟨_, .repeatedAccessor hlabel hvalues haccessor⟩
      · exact .inl ⟨hlabel, hvalues, haccessor⟩
  · exact .inr ⟨_, .unlabelled hlabel⟩

theorem Breaks.mono (h : c.Breaks function place seen fault) (hseen : seen ⊆ seen') :
    c.Breaks function place seen' fault := by
  cases h with
  | unlabelled hlabel => exact .unlabelled hlabel
  | repeatedValue hlabel hvalue => exact .repeatedValue hlabel hvalue
  | repeatedAccessor hlabel hvalues haccessor =>
    exact .repeatedAccessor hlabel hvalues (hseen haccessor)

/-! ## Clauses one behind the other -/

/-- The clauses of a function follow the rules. -/
structure Indexable (function : String) (cs : List RawClause) : Prop where
  labelled : ∀ c ∈ cs, c.IsLabelled
  values : ∀ c ∈ cs, c.valueNames.Nodup
  accessors : (cs.map (accessor function)).Nodup

/-- The clauses follow the rules behind others with the accessors seen. -/
def FollowAll (function : String) (seen : List String) (cs : List RawClause) : Prop :=
  Indexable function cs ∧ ∀ c ∈ cs, c.accessor function ∉ seen

theorem followAll_nil : FollowAll function seen [] := ⟨⟨nofun, nofun, List.nodup_nil⟩, nofun⟩

theorem followAll_cons : FollowAll function seen (c :: cs) ↔
    c.Follows function seen ∧ FollowAll function (c.accessor function :: seen) cs := by
  constructor
  · rintro ⟨⟨hlabel, hvalues, haccessors⟩, hfresh⟩
    rw [List.forall_mem_cons] at hlabel hvalues hfresh
    rw [List.map_cons, List.nodup_cons] at haccessors
    refine ⟨⟨hlabel.1, hvalues.1, hfresh.1⟩, ⟨hlabel.2, hvalues.2, haccessors.2⟩, fun d hd => ?_⟩
    rw [List.mem_cons, not_or]
    exact ⟨fun heq => haccessors.1 (heq ▸ List.mem_map_of_mem hd), hfresh.2 d hd⟩
  · rintro ⟨⟨hlabel, hvalues, haccessor⟩, ⟨hlabels, hvalues', haccessors⟩, hfresh⟩
    refine ⟨⟨List.forall_mem_cons.mpr ⟨hlabel, hlabels⟩,
      List.forall_mem_cons.mpr ⟨hvalues, hvalues'⟩, ?_⟩,
      List.forall_mem_cons.mpr ⟨haccessor, fun d hd hmem => ?_⟩⟩
    · rw [List.map_cons, List.nodup_cons]
      refine ⟨fun hmem => ?_, haccessors⟩
      obtain ⟨d, hd, heq⟩ := List.mem_map.mp hmem
      exact hfresh d hd (heq ▸ List.mem_cons_self)
    · exact hfresh d hd (List.mem_cons_of_mem _ hmem)

/-- Behind clauses that follow the rules stands one that does not. -/
def BreaksFirst (function : String) (place : Nat) (seen : List String) (cs : List RawClause)
    (fault : Fault) : Prop :=
  ∃ front c back, cs = front ++ c :: back ∧ FollowAll function seen front ∧
    c.Breaks function (place + front.length) ((front.map (accessor function)).reverse ++ seen) fault

theorem breaksFirst_cons : BreaksFirst function place seen (c :: cs) fault ↔
    c.Breaks function place seen fault ∨ c.Follows function seen ∧
      BreaksFirst function (place + 1) (c.accessor function :: seen) cs fault := by
  constructor
  · rintro ⟨_ | ⟨d, front⟩, e, back, hcs, hfront, hbreaks⟩
    · cases hcs
      exact .inl hbreaks
    · cases hcs
      obtain ⟨hfirst, hrest⟩ := followAll_cons.mp hfront
      refine .inr ⟨hfirst, front, e, back, rfl, hrest, ?_⟩
      simpa [Nat.add_assoc, Nat.add_comm 1] using hbreaks
  · rintro (hbreaks | ⟨hfirst, front, e, back, rfl, hrest, hbreaks⟩)
    · exact ⟨[], c, cs, rfl, followAll_nil, hbreaks⟩
    · refine ⟨c :: front, e, back, rfl, followAll_cons.mpr ⟨hfirst, hrest⟩, ?_⟩
      simpa [Nat.add_assoc, Nat.add_comm 1] using hbreaks

theorem FollowAll.indexFrom (h : FollowAll function seen cs) :
    indexFrom function place seen cs = .ok (cs.map (indexed function)) := by
  induction cs generalizing place seen with
  | nil => rfl
  | cons c cs ih =>
    obtain ⟨hfirst, hrest⟩ := followAll_cons.mp h
    rw [indexFrom_cons, hfirst.accept, ih hrest]
    rfl

theorem BreaksFirst.indexFrom (h : BreaksFirst function place seen cs fault) :
    indexFrom function place seen cs = .error fault := by
  induction cs generalizing place seen with
  | nil =>
    obtain ⟨front, c, back, hcs, -⟩ := h
    simp at hcs
  | cons c cs ih =>
    rw [indexFrom_cons]
    rcases breaksFirst_cons.mp h with hbreaks | ⟨hfirst, hrest⟩
    · rw [hbreaks.accept]
      rfl
    · rw [hfirst.accept, ih hrest]
      rfl

/-- All clauses follow the rules, or there is a first one that does not. -/
theorem followAll_or_breaksFirst (function : String) (place : Nat) (seen : List String)
    (cs : List RawClause) :
    FollowAll function seen cs ∨ ∃ fault, BreaksFirst function place seen cs fault := by
  induction cs generalizing place seen with
  | nil => exact .inl followAll_nil
  | cons c cs ih =>
    rcases follows_or_breaks function place seen c with hfirst | ⟨fault, hbreaks⟩
    · rcases ih (place + 1) (c.accessor function :: seen) with hrest | ⟨fault, hrest⟩
      · exact .inl (followAll_cons.mpr ⟨hfirst, hrest⟩)
      · exact .inr ⟨fault, breaksFirst_cons.mpr (.inr ⟨hfirst, hrest⟩)⟩
    · exact .inr ⟨fault, breaksFirst_cons.mpr (.inl hbreaks)⟩

theorem breaksFirst_iff : BreaksFirst function 0 [] cs fault ↔
    ∃ (front : List RawClause) (c : RawClause) (back : List RawClause),
      cs = front ++ c :: back ∧ Indexable function front ∧
      c.Breaks function front.length (front.map (accessor function)) fault := by
  unfold BreaksFirst FollowAll
  simp only [Nat.zero_add, List.append_nil, List.not_mem_nil, not_false_eq_true, implies_true,
    and_true]
  constructor
  · rintro ⟨front, c, back, hcs, hfront, hbreaks⟩
    exact ⟨front, c, back, hcs, hfront, hbreaks.mono (List.reverse_subset.mpr (List.Subset.refl _))⟩
  · rintro ⟨front, c, back, hcs, hfront, hbreaks⟩
    exact ⟨front, c, back, hcs, hfront, hbreaks.mono (List.subset_reverse.mpr (List.Subset.refl _))⟩

/-- **Indexing the clauses of a function.** It succeeds exactly if every clause has a label, no
clause has two values of one name and the accessors are different. The clauses then stand in their
order with their items as they were and with these accessors. Otherwise the fault is that of the
first clause that breaks a rule behind the ones in front of it. A missing label comes before a
repeated value, which is the first name that is repeated, and that before a repeated accessor. -/
theorem index_iff (function : String) (cs : List RawClause) :
    (∀ results, index function cs = .ok results ↔ Indexable function cs ∧
        results = cs.map fun c => ⟨c.items, function ++ "_result_" ++ Text.join "_" c.labels⟩) ∧
      ∀ fault, index function cs = .error fault ↔
        ∃ front c back, cs = front ++ c :: back ∧ Indexable function front ∧
          c.Breaks function front.length (front.map (accessor function)) fault := by
  simp only [← breaksFirst_iff]
  rcases followAll_or_breaksFirst function 0 [] cs with hfollow | ⟨fault, hbreaks⟩
  · have hindex : index function cs = _ := hfollow.indexFrom
    refine ⟨fun results => ⟨fun h => ?_, ?_⟩, fun fault => ⟨fun h => ?_, BreaksFirst.indexFrom⟩⟩
    · cases hindex.symm.trans h
      exact ⟨hfollow.1, rfl⟩
    · rintro ⟨-, rfl⟩
      exact hindex
    · cases hindex.symm.trans h
  · have hindex : index function cs = _ := hbreaks.indexFrom
    refine ⟨fun results => ⟨fun h => ?_, ?_⟩, fun fault => ⟨fun h => ?_, BreaksFirst.indexFrom⟩⟩
    · cases hindex.symm.trans h
    · rintro ⟨hindexable, -⟩
      have hfollow : FollowAll function [] cs := ⟨hindexable, fun _ _ => List.not_mem_nil⟩
      cases hindex.symm.trans hfollow.indexFrom
    · cases hindex.symm.trans h
      exact hbreaks

/-- Labels that differ may give the same accessor, and a missing label is noticed before it. -/
example : index "f" [⟨[.ofLabel "a_b"], {}⟩, ⟨[.ofLabel "a", .ofLabel "b"], {}⟩] =
      .error (.duplicateAccessor "f" "f_result_a_b" {}) ∧
    index "f" [⟨[.ofLabel "a"], {}⟩, ⟨[.ofValue "x" .label, .ofValue "x" .label], {}⟩] =
      .error (.emptyLabelSet "f" 1 {}) :=
  ⟨rfl, rfl⟩

end NativeInterface.RawClause
