import NativeInterface.Backend.CNode
import NativeInterface.Backend.Nif
import NativeInterface.Proofs.Nesting
import Mathlib.Data.List.Infix

/-!
# Symbols of the generated code

Names become C symbols by a map of characters that loses some, an arity behind a name that several
functions share, and labels joined by underscores. `C.Separated` says which names keep apart under
this: the symbols of a compiled file differ exactly if its names are separated, so the only names
that are shut out are those that collide. `C.PlainNames` is a condition that needs no look at how
names go on. Symbols of functions that share a name keep apart whatever the name is, as an arity has
no underscore in it.
-/

namespace NativeInterface

/-! ## Accessors -/

namespace RawClause

theorem indexFrom_accessors {function : String} {index : Nat} {seen : List String}
    {cs : List RawClause} {results : List Clause}
    (h : indexFrom function index seen cs = .ok results) :
    (∀ c ∈ results, c.accessor = function ++ "_result_" ++ Text.join "_" c.labels) ∧
      (results.map (·.accessor)).Nodup ∧ ∀ c ∈ results, c.accessor ∉ seen := by
  induction cs generalizing index seen results with
  | nil =>
    cases h
    simp
  | cons c cs ih =>
    obtain ⟨_, _, h⟩ := Outcome.bind_eq_ok.mp h
    dsimp only at h
    split at h
    · cases h
    · rename_i hseen
      obtain ⟨rest, hrest, h⟩ := Outcome.bind_eq_ok.mp h
      cases h
      obtain ⟨hform, hnodup, hnew⟩ := ih hrest
      refine ⟨?_, ?_, ?_⟩
      · exact List.forall_mem_cons.mpr ⟨rfl, hform⟩
      · rw [List.map_cons, List.nodup_cons]
        refine ⟨fun hmem => ?_, hnodup⟩
        obtain ⟨c', hc', heq⟩ := List.mem_map.mp hmem
        exact hnew c' hc' (heq ▸ List.mem_cons_self)
      · refine List.forall_mem_cons.mpr ⟨by simpa using hseen, fun c' hc' hmem => ?_⟩
        exact hnew c' hc' (List.mem_cons_of_mem _ hmem)

end RawClause

/-- The clauses of the function have the accessors that their labels name, all different. -/
def NativeFunction.Indexed (f : NativeFunction) : Prop :=
  (∀ c ∈ f.results, c.accessor = f.name ++ "_result_" ++ Text.join "_" c.labels) ∧
    (f.results.map (·.accessor)).Nodup

/-- All accessors are what the labels of their clauses name. -/
structure Builder.Indexed (b : Builder) : Prop where
  functions : ∀ f ∈ b.functions, f.Indexed
  sends : ∀ c ∈ b.sends, c.accessor = "send_" ++ Text.join "_" c.labels

namespace Builder.Indexed
variable {b b' : Builder}

theorem add (h : b.Indexed) {d : Declaration} (hadd : b.add d = .ok b') : b'.Indexed := by
  obtain ⟨r, -, hadd⟩ := Outcome.bind_eq_ok.mp hadd
  cases r with
  | function f =>
    obtain ⟨-, -, results, hresults, rfl⟩ := addFunction_ok hadd
    refine ⟨fun g hg => ?_, h.sends⟩
    rcases List.mem_append.mp hg with hg | hg
    · exact h.functions g hg
    · rw [List.mem_singleton.mp hg]
      obtain ⟨hform, hnodup, -⟩ := RawClause.indexFrom_accessors hresults
      exact ⟨hform, hnodup⟩
  | struct d =>
    obtain ⟨-, -, rfl⟩ := addStruct_ok hadd
    exact ⟨h.functions, h.sends⟩
  | enum e =>
    obtain ⟨-, rfl⟩ := addEnum_ok hadd
    exact ⟨h.functions, h.sends⟩
  | sends c =>
    obtain ⟨-, sent, hsent, rfl⟩ := addSends_ok hadd
    refine ⟨h.functions, fun c' hc' => ?_⟩
    obtain ⟨_, _, hsent⟩ := Outcome.bind_eq_ok.mp hsent
    cases hsent
    cases hc'
    rfl
  | moduleName | interface | stateType | dirty | callback =>
    cases hadd
    exact ⟨h.functions, h.sends⟩

end Builder.Indexed

theorem Surface.indexed_of_build {name : String} {ds : List Declaration} {s : Surface}
    (h : build name ds = .ok s) :
    (∀ f ∈ s.functions, f.Indexed) ∧
      ∀ c ∈ s.sends, c.accessor = "send_" ++ Text.join "_" c.labels := by
  obtain ⟨b, hb, h⟩ := Outcome.bind_eq_ok.mp h
  cases h
  have hstart : (Builder.ofName name).Indexed :=
    ⟨by simp [Builder.ofName], by simp [Builder.ofName]⟩
  have hindexed : b.Indexed :=
    @Outcome.foldlM_induction _ _ _ _ (fun _ b => b.Indexed) (fun hdone hadd => hdone.add hadd)
      _ _ [] ds hstart hb
  exact ⟨hindexed.functions, hindexed.sends⟩

/-! ## Identifiers -/

namespace C

theorem identChar_eq_self {c : Char} (h : isIdentChar c) : identChar c = c := if_pos h

theorem isIdentChar_identChar (c : Char) : isIdentChar (identChar c) := by
  unfold identChar
  split
  · assumption
  · rfl

theorem map_identChar {cs : List Char} (h : ∀ c ∈ cs, isIdentChar c) : cs.map identChar = cs := by
  conv_rhs => rw [← List.map_id cs]
  exact List.map_congr_left fun c hc => identChar_eq_self (h c hc)

/-- From an underscore on, a name changes by character: no first digit can stand there. -/
theorem identChars_append_underscore (cs z : List Char) :
    identChars (cs ++ '_' :: z) = identChars cs ++ '_' :: z.map identChar := by
  have hmark : identChar '_' = '_' := rfl
  cases cs with
  | nil => simp [identChars, hmark]
  | cons c cs =>
    simp only [identChars, List.cons_append, List.map_cons, List.map_append, hmark]
    split <;> rfl

/-- An identifier is one already. -/
theorem identChars_identChars (cs : List Char) : identChars (identChars cs) = identChars cs := by
  cases cs with
  | nil => rfl
  | cons c cs =>
    have hmark : identChar '_' = '_' := rfl
    have hmap (c : Char) : identChar (identChar c) = identChar c :=
      identChar_eq_self (isIdentChar_identChar c)
    cases hdigit : (identChar c).isDigit with
    | true => simp [identChars, hdigit, hmark, hmap]
    | false => simp [identChars, hdigit, hmap]

theorem toList_ident (name : String) : (ident name).toList = identChars name.toList :=
  String.toList_ofList

/-! ## Splitting a symbol -/

/-- The first underscore is found from the front. -/
theorem underscore_append {a b x y : List Char} (ha : '_' ∉ a) (hb : '_' ∉ b)
    (h : a ++ '_' :: x = b ++ '_' :: y) : a = b ∧ x = y := by
  have hcut (z back : List Char) (hz : '_' ∉ z) :
      (z ++ '_' :: back).takeWhile (· ≠ '_') = z ∧
        (z ++ '_' :: back).dropWhile (· ≠ '_') = '_' :: back := by
    refine Lexeme.takeWhile_of_head (fun c hc => ?_) (by simp)
    rw [decide_eq_true_iff]
    rintro rfl
    exact hz hc
  obtain ⟨ha, hx⟩ := hcut a x ha
  obtain ⟨hb, hy⟩ := hcut b y hb
  rw [h, hb] at ha
  rw [h, hy] at hx
  exact ⟨ha.symm, (List.cons.inj hx).2.symm⟩

/-- The last underscore is found from the end. -/
theorem append_underscore {a b x y : List Char} (hx : '_' ∉ x) (hy : '_' ∉ y)
    (h : a ++ '_' :: x = b ++ '_' :: y) : a = b ∧ x = y := by
  have hrev := congrArg List.reverse h
  simp only [List.reverse_append, List.reverse_cons, List.append_assoc, List.singleton_append]
    at hrev
  obtain ⟨hxy, hab⟩ := underscore_append (by simpa using hx) (by simpa using hy) hrev
  exact ⟨List.reverse_inj.mp hab, List.reverse_inj.mp hxy⟩

/-- A word without underscores inside stands in front of a text up to an underscore, unless the text
starts with that underscore. -/
theorem prefix_underscore {w t z : List Char}
    (hw : ∀ p ∈ w.inits, p.getLast? = some '_' → p = ['_'] ∨ p = w) (h : w <+: t ++ '_' :: z) :
    t = [] ∨ w <+: t ++ ['_'] := by
  have hmark : t ++ ['_'] <+: t ++ '_' :: z := ⟨z, by simp⟩
  rcases Nat.le_total w.length (t ++ ['_']).length with hle | hle
  · exact .inr (List.prefix_of_prefix_length_le h hmark hle)
  · have hinit := List.prefix_of_prefix_length_le hmark h hle
    rcases hw _ ((List.mem_inits _ _).mpr hinit) (by simp) with heq | heq
    · exact .inl (by simpa using heq)
    · exact .inr (heq ▸ List.prefix_refl _)

/-- A word that ends in an underscore stands in a text up to the last underscore. -/
theorem infix_underscore {w name z : List Char} (hz : '_' ∉ z) (hw : w.getLast? = some '_')
    (h : w <:+: name ++ '_' :: z) : w <:+: name ++ ['_'] := by
  obtain ⟨p, q, heq⟩ := h
  have hword : p ++ w <+: name ++ '_' :: z := ⟨q, heq⟩
  have hmark : name ++ ['_'] <+: name ++ '_' :: z := ⟨z, by simp⟩
  rcases Nat.le_total (p ++ w).length (name ++ ['_']).length with hle | hle
  · have hshort := List.prefix_of_prefix_length_le hword hmark hle
    exact (List.suffix_append p w).isInfix.trans hshort.isInfix
  · obtain ⟨y, hy⟩ := List.prefix_of_prefix_length_le hmark hword hle
    rcases List.eq_nil_or_concat y with rfl | ⟨y, x, rfl⟩
    · exact ⟨p, [], by rw [List.append_nil, ← hy, List.append_nil]⟩
    · have hne : w ≠ [] := by
        rintro rfl
        cases hw
      have hlast := congrArg List.getLast? hy
      rw [List.getLast?_append_of_ne_nil _ hne, hw, List.concat_eq_append, ← List.append_assoc,
        List.getLast?_concat] at hlast
      obtain rfl := Option.some.inj hlast
      rw [← hy, List.append_assoc, List.prefix_append_right_inj] at hword
      obtain ⟨rest, hrest⟩ := hword
      have hmem : '_' ∈ z := by
        rw [← (List.cons.inj hrest).2]
        simp
      exact absurd hmem hz

/-- What stands between a name and the labels of a clause. -/
def resultMark : List Char := "_result_".toList

def sendMark : List Char := "send_".toList

/-- The first mark ends the name, as long as the name does not hold it itself. -/
theorem append_resultMark {a b x y : List Char} (ha : ¬resultMark <:+: a ++ ['_'])
    (hb : ¬resultMark <:+: b ++ ['_']) (h : a ++ (resultMark ++ x) = b ++ (resultMark ++ y)) :
    a = b ∧ x = y := by
  have longer {a b x y : List Char} (hb : ¬resultMark <:+: b ++ ['_'])
      (h : a ++ (resultMark ++ x) = b ++ (resultMark ++ y)) (hle : a.length ≤ b.length) :
      a = b := by
    obtain ⟨t, rfl⟩ : a <+: b := List.prefix_of_prefix_length_le
      (List.prefix_append a (resultMark ++ x)) (h ▸ List.prefix_append b _) hle
    rw [List.append_assoc, List.append_cancel_left_eq] at h
    have hfront : resultMark <+: t ++ '_' :: ("result_".toList ++ y) := ⟨x, h⟩
    rcases prefix_underscore (by decide) hfront with rfl | hmark
    · exact (List.append_nil a).symm
    · rw [List.append_assoc] at hb
      exact absurd (hmark.isInfix.trans (List.suffix_append a _).isInfix) hb
  obtain rfl : a = b := by
    rcases Nat.le_total a.length b.length with hle | hle
    · exact longer hb h hle
    · exact (longer ha h.symm hle).symm
  exact ⟨rfl, by simpa using h⟩

/-! ## Symbols of separated names -/

/-- What the symbol of a function has behind the name. -/
def aritySuffix (s : Surface) (f : NativeFunction) : List Char :=
  if isOverloaded s f then '_' :: Nat.toDigits 10 f.arity else []

section
variable {s : Surface} {f g : NativeFunction} {c : Clause}

theorem underscore_notMem_toDigits (n : Nat) : '_' ∉ Nat.toDigits 10 n :=
  Nat.underscore_not_in_toDigits

theorem isIdentChar_toDigits {n : Nat} {c : Char} (hc : c ∈ Nat.toDigits 10 n) : isIdentChar c := by
  have hdigit : c.isDigit := Nat.isDigit_of_mem_toDigits (by decide) (by decide) hc
  have hchar : isIdentChar c = (c.isAlpha || c.isDigit || decide (c = '_')) := rfl
  rw [hchar, hdigit, Bool.or_true, Bool.true_or]

theorem toDigits_inj {m n : Nat} (h : Nat.toDigits 10 m = Nat.toDigits 10 n) : m = n := by
  rw [← Nat.ofDigitChars_ten_toDigits (n := m), h, Nat.ofDigitChars_ten_toDigits]

/-- Two functions of one name are overloads. -/
theorem isOverloaded_of_ne (hf : f ∈ s.functions) (hg : g ∈ s.functions) (hname : f.name = g.name)
    (hne : f ≠ g) : isOverloaded s f := by
  have hf' : f ∈ s.functions.filter (·.name == f.name) := List.mem_filter.mpr ⟨hf, by simp⟩
  have hg' : g ∈ s.functions.filter (·.name == f.name) := List.mem_filter.mpr ⟨hg, by simp [hname]⟩
  rw [isOverloaded, decide_eq_true_iff]
  by_contra hle
  obtain ⟨x, hx⟩ := List.length_eq_one_iff.mp
    (Nat.le_antisymm (Nat.le_of_not_lt hle) (List.length_pos_of_mem hf'))
  rw [hx, List.mem_singleton] at hf' hg'
  exact hne (hf'.trans hg'.symm)

theorem aritySuffix_cases (s : Surface) (f : NativeFunction) :
    aritySuffix s f = [] ∨ ∃ z, aritySuffix s f = '_' :: z := by
  unfold aritySuffix
  split
  · exact .inr ⟨_, rfl⟩
  · exact .inl rfl

theorem map_identChar_aritySuffix (s : Surface) (f : NativeFunction) :
    (aritySuffix s f).map identChar = aritySuffix s f := by
  refine map_identChar fun c hc => ?_
  unfold aritySuffix at hc
  split at hc
  · rcases List.mem_cons.mp hc with rfl | hc
    · rfl
    · exact isIdentChar_toDigits hc
  · cases hc

theorem toList_implName (s : Surface) (f : NativeFunction) :
    (implName s f).toList = (ident f.name).toList ++ aritySuffix s f := by
  unfold implName aritySuffix
  split
  · simp [Text.decimal]
  · simp

theorem identChars_implName (s : Surface) (f : NativeFunction) :
    identChars (implName s f).toList = (implName s f).toList := by
  have hmap := map_identChar_aritySuffix s f
  rw [toList_implName, toList_ident]
  rcases aritySuffix_cases s f with hnone | ⟨z, hz⟩
  · rw [hnone, List.append_nil, identChars_identChars]
  · rw [hz] at hmap ⊢
    rw [identChars_append_underscore, identChars_identChars, (List.cons.inj hmap).2]

theorem stripFront_append (front text : String) : Text.stripFront front (front ++ text) = text := by
  rw [Text.stripFront, if_pos (by simp), String.toList_append,
    List.drop_left' String.length_toList, String.ofList_toList]

theorem toList_ident_result (name labels : String) :
    (ident (name ++ "_result_" ++ labels)).toList =
      (ident name).toList ++ (resultMark ++ labels.toList.map identChar) := by
  have htail : (name ++ "_result_" ++ labels).toList =
      name.toList ++ '_' :: ("result_".toList ++ labels.toList) := by
    simp
  rw [toList_ident, htail, identChars_append_underscore, List.map_append, toList_ident]
  rfl

theorem toList_accessorName {labels : String}
    (hform : c.accessor = f.name ++ "_result_" ++ labels) :
    (accessorName s f c).toList =
      (ident f.name).toList ++ aritySuffix s f
        ++ (resultMark ++ labels.toList.map identChar) := by
  cases hover : isOverloaded s f with
  | false =>
    rw [accessorName, if_neg (by simp [hover]), hform, toList_ident_result, aritySuffix,
      if_neg (by simp [hover]), List.append_nil]
  | true =>
    have hname : (ident (implName s f)).toList = (ident f.name).toList ++ aritySuffix s f := by
      rw [toList_ident, identChars_implName, toList_implName]
    rw [accessorName, if_pos hover, hform, String.append_assoc, stripFront_append,
      ← String.append_assoc, toList_ident_result, hname]

/-- No arity makes a name hold the mark of results. -/
theorem resultMark_aritySuffix {name : List Char} (h : ¬resultMark <:+: name ++ ['_']) :
    ¬resultMark <:+: (name ++ aritySuffix s f) ++ ['_'] := by
  unfold aritySuffix
  split
  · rintro ⟨p, q, heq⟩
    rcases List.eq_nil_or_concat q with rfl | ⟨q, x, rfl⟩
    · -- the mark would end in the last digit of the arity
      have hmark : p ++ "_result".toList ++ ['_'] =
          name ++ '_' :: Nat.toDigits 10 f.arity ++ ['_'] := by
        rw [← heq, List.append_nil, List.append_assoc]
        rfl
      have hlast := congrArg List.getLast? (List.append_inj_left' hmark rfl)
      rw [List.getLast?_append_of_ne_nil _ (by decide),
        List.getLast?_append_of_ne_nil _ (List.cons_ne_nil _ _)] at hlast
      rcases List.mem_cons.mp (List.mem_of_getLast? hlast.symm) with hunder | hdigit
      · cases hunder
      · exact absurd (Nat.isDigit_of_mem_toDigits (by decide) (by decide) hdigit) (by decide)
    · rw [List.concat_eq_append, ← List.append_assoc] at heq
      refine h (infix_underscore (underscore_notMem_toDigits f.arity) (by decide) ⟨p, q, ?_⟩)
      exact List.append_inj_left' heq rfl
  · rwa [List.append_nil]

theorem sendMark_append {name rest : List Char} (h : ¬sendMark <+: name ++ ['_'])
    (hrest : rest = [] ∨ ∃ z, rest = '_' :: z) : ¬sendMark <+: name ++ rest := by
  intro hmark
  rcases hrest with rfl | ⟨z, rfl⟩
  · rw [List.append_nil] at hmark
    exact h (hmark.trans (List.prefix_append ..))
  · rcases prefix_underscore (by decide) hmark with rfl | hmark
    · exact absurd (List.cons_prefix_cons.mp hmark).1 (by decide)
    · exact h hmark

theorem sendMark_prefix_ident (labels : String) :
    sendMark <+: (ident ("send_" ++ labels)).toList := by
  rw [ident, String.toList_ofList, String.toList_append]
  exact ⟨_, rfl⟩

end

/-- The labels of a clause as they stand in its symbol. -/
def labelChars (c : Clause) : List Char := (Text.join "_" c.labels).toList.map identChar

/-- Symbols that differ: those of functions that differ in name or arity, in the implementation, the
accessors and the wrappers of both backends; those of the clauses of one function; and that of the
message. -/
structure DifferentSymbols (s : Surface) : Prop where
  functions : ∀ f ∈ s.functions, ∀ g ∈ s.functions, f.key ≠ g.key →
    implName s f ≠ implName s g ∧ Nif.exportName f ≠ Nif.exportName g ∧
      CNode.wrapperName f ≠ CNode.wrapperName g ∧
      ∀ c ∈ f.results, accessorName s f c ≠ implName s g ∧
        ∀ c' ∈ g.results, accessorName s f c ≠ accessorName s g c'
  clauses : ∀ f ∈ s.functions, (f.results.map (accessorName s f)).Nodup
  message : ∀ m ∈ s.sends, ∀ f ∈ s.functions, ident m.accessor ≠ implName s f ∧
    ∀ c ∈ f.results, ident m.accessor ≠ accessorName s f c

/-- Names that keep apart as C symbols. -/
structure Separated (s : Surface) : Prop where
  /-- Functions of one C identifier have different arities, and one of them is told by its arity. -/
  names : ∀ f ∈ s.functions, ∀ g ∈ s.functions, f.key ≠ g.key → ident f.name = ident g.name →
    f.arity ≠ g.arity ∧ (isOverloaded s f ∨ isOverloaded s g)
  /-- No function has the identifier of an overloaded one with its arity. -/
  arities : ∀ f ∈ s.functions, ∀ g ∈ s.functions, isOverloaded s f = false → isOverloaded s g →
    ident f.name ≠ ident g.name ++ "_" ++ Text.decimal g.arity
  /-- C identifiers tell the clauses of a function apart. -/
  clauses : ∀ f ∈ s.functions, ∀ c ∈ f.results, ∀ c' ∈ f.results,
    ident c.accessor = ident c'.accessor → c.accessor = c'.accessor
  /-- Where a function is called like another and something more, no clause of the other one goes on
  in that way. -/
  results : ∀ f ∈ s.functions, ∀ g ∈ s.functions, ∀ rest, rest ≠ [] →
    (implName s g).toList = (implName s f).toList ++ rest → ∀ c ∈ f.results,
      resultMark ++ labelChars c ≠ rest ∧
        ∀ c' ∈ g.results, resultMark ++ labelChars c ≠ rest ++ (resultMark ++ labelChars c')
  /-- Where a function is called `send`, or `send_` and something more, the message does not go on
  in that way. -/
  message : ∀ m ∈ s.sends, ∀ f ∈ s.functions,
    ((implName s f).toList = "send".toList →
      ∀ c ∈ f.results, labelChars m ≠ "result_".toList ++ labelChars c) ∧
    ∀ rest, (implName s f).toList = sendMark ++ rest → labelChars m ≠ rest ∧
      ∀ c ∈ f.results, labelChars m ≠ rest ++ (resultMark ++ labelChars c)

/-- Names that need no look at how they go on: C identifiers tell different functions, and different
clauses of a function, apart; no function has the identifier of an overloaded one with its arity;
none holds `_result_` or ends in `_result`; and where there is a message none is `send` or starts
with `send_`. -/
structure PlainNames (s : Surface) : Prop where
  names : ∀ f ∈ s.functions, ∀ g ∈ s.functions, ident f.name = ident g.name → f.name = g.name
  clauses : ∀ f ∈ s.functions, ∀ c ∈ f.results, ∀ c' ∈ f.results,
    ident c.accessor = ident c'.accessor → c.accessor = c'.accessor
  arities : ∀ f ∈ s.functions, ∀ g ∈ s.functions, isOverloaded s f = false → isOverloaded s g →
    ident f.name ≠ ident g.name ++ "_" ++ Text.decimal g.arity
  results : ∀ f ∈ s.functions, ¬resultMark <:+: (ident f.name).toList ++ ['_']
  message : s.sends.isSome → ∀ f ∈ s.functions, ¬sendMark <+: (ident f.name).toList ++ ['_']

section
variable {s : Surface} {f g : NativeFunction} {c c' m : Clause}

/-! ### Symbols of functions -/

theorem implName_of_isOverloaded (h : isOverloaded s f) :
    implName s f = ident f.name ++ "_" ++ Text.decimal f.arity := if_pos h

theorem implName_of_not_isOverloaded (h : isOverloaded s f = false) :
    implName s f = ident f.name := if_neg (by simp [h])

theorem implName_eq_of_key (h : f.key = g.key) : implName s f = implName s g := by
  obtain ⟨hname, harity⟩ := Prod.mk.inj h
  rw [implName, isOverloaded, hname, harity, implName, isOverloaded]

/-- A name with an arity behind it. -/
theorem arity_inj {a b : String} {n m : Nat}
    (h : a ++ "_" ++ Text.decimal n = b ++ "_" ++ Text.decimal m) : a = b ∧ n = m := by
  have hlists := congrArg String.toList h
  have htext (a : String) (n : Nat) :
      (a ++ "_" ++ Text.decimal n).toList = a.toList ++ '_' :: Nat.toDigits 10 n := by
    simp [Text.decimal]
  rw [htext, htext] at hlists
  obtain ⟨hnames, harities⟩ := append_underscore (underscore_notMem_toDigits _)
    (underscore_notMem_toDigits _) hlists
  exact ⟨String.toList_inj.mp hnames, toDigits_inj harities⟩

/-- A wrapper has the name and the arity behind its mark. -/
theorem wrapper_inj {front : String}
    (h : front ++ ident f.name ++ "_" ++ Text.decimal f.arity =
      front ++ ident g.name ++ "_" ++ Text.decimal g.arity) :
    ident f.name = ident g.name ∧ f.arity = g.arity := by
  obtain ⟨hnames, harity⟩ := arity_inj h
  exact ⟨(String.append_right_inj front).mp hnames, harity⟩

/-- Symbols of functions that are the same: names of one identifier with no arity, names of one
identifier with one arity, and a name that ends in the arity of another. -/
theorem implName_eq_iff : implName s f = implName s g ↔
    (isOverloaded s f = isOverloaded s g ∧ ident f.name = ident g.name ∧
        (isOverloaded s f → f.arity = g.arity)) ∨
      (isOverloaded s f = false ∧ isOverloaded s g ∧
        ident f.name = ident g.name ++ "_" ++ Text.decimal g.arity) ∨
      isOverloaded s g = false ∧ isOverloaded s f ∧
        ident g.name = ident f.name ++ "_" ++ Text.decimal f.arity := by
  cases hf : isOverloaded s f with
  | true =>
    rw [implName_of_isOverloaded hf]
    cases hg : isOverloaded s g with
    | true =>
      rw [implName_of_isOverloaded hg]
      constructor
      · intro h
        obtain ⟨hname, harity⟩ := arity_inj h
        exact .inl ⟨rfl, hname, fun _ => harity⟩
      · simp only [Bool.true_eq_false, false_and, or_false, true_and, forall_const]
        rintro ⟨hname, harity⟩
        rw [hname, harity]
    | false =>
      rw [implName_of_not_isOverloaded hg]
      simp [eq_comm]
  | false =>
    rw [implName_of_not_isOverloaded hf]
    cases hg : isOverloaded s g with
    | true =>
      rw [implName_of_isOverloaded hg]
      simp
    | false =>
      rw [implName_of_not_isOverloaded hg]
      simp

/-! ### Symbols of clauses -/

theorem toList_accessor (h : f.Indexed) (hc : c ∈ f.results) :
    (accessorName s f c).toList = (implName s f).toList ++ (resultMark ++ labelChars c) := by
  rw [toList_accessorName (h.1 c hc), toList_implName]
  rfl

/-- The identifiers of two clauses of a function are the same if their symbols are. -/
theorem accessorName_eq_iff (h : f.Indexed) (hc : c ∈ f.results) (hc' : c' ∈ f.results) :
    accessorName s f c = accessorName s f c' ↔ ident c.accessor = ident c'.accessor := by
  rw [← String.toList_inj, ← String.toList_inj, toList_accessor h hc, toList_accessor h hc',
    h.1 c hc, h.1 c' hc', toList_ident_result, toList_ident_result, List.append_cancel_left_eq,
    List.append_cancel_left_eq, List.append_cancel_left_eq, List.append_cancel_left_eq]
  rfl

theorem toList_message (hform : m.accessor = "send_" ++ Text.join "_" m.labels) :
    (ident m.accessor).toList = sendMark ++ labelChars m := by
  rw [hform, toList_ident, String.toList_append]
  rfl

/-- The symbol of the message is that of a clause: the mark of the message ends in front of that of
the results, or shares its underscore. -/
theorem message_eq_iff {name labels labels' : List Char} :
    sendMark ++ labels = name ++ (resultMark ++ labels') ↔
      (name = "send".toList ∧ labels = "result_".toList ++ labels') ∨
        ∃ rest, name = sendMark ++ rest ∧ labels = rest ++ (resultMark ++ labels') := by
  constructor
  · intro h
    rcases List.append_eq_append_iff.mp h with ⟨rest, hname, hlabels⟩ | ⟨rest, hmark, hlabels⟩
    · exact .inr ⟨rest, hname, hlabels⟩
    · -- the rest is what the mark of messages has behind the name, and starts with an underscore
      have hends : ∀ rest ∈ sendMark.tails, rest ≠ [] → rest.head? = some '_' → rest = ['_'] := by
        decide
      have hend : rest ∈ sendMark.tails := by
        rw [List.mem_tails, hmark]
        exact List.suffix_append _ _
      cases rest with
      | nil =>
        rw [List.append_nil] at hmark
        exact .inr ⟨[], by rw [hmark, List.append_nil], hlabels.symm⟩
      | cons c rest =>
        have hhead := congrArg List.head? hlabels
        have hunder : (c :: rest).head? = some '_' := hhead.symm
        have hrest := hends _ hend (List.cons_ne_nil _ _) hunder
        rw [hrest] at hmark hlabels
        have hname : "send".toList ++ ['_'] = name ++ ['_'] := hmark
        exact .inl ⟨(List.append_cancel_right hname).symm, (List.cons.inj hlabels).2.symm⟩
  · rintro (⟨rfl, rfl⟩ | ⟨rest, rfl, rfl⟩)
    · rfl
    · exact (List.append_assoc ..).symm

end

/-! ### The condition is exact -/

section
variable {s : Surface} (hindexed : ∀ f ∈ s.functions, f.Indexed)
  (hsends : ∀ m ∈ s.sends, m.accessor = "send_" ++ Text.join "_" m.labels)
include hindexed hsends

theorem Separated.differentSymbols (h : Separated s) : DifferentSymbols s := by
  have hfunctions {f g : NativeFunction} (hf : f ∈ s.functions) (hg : g ∈ s.functions)
      (hne : f.key ≠ g.key) : implName s f ≠ implName s g := by
    intro heq
    rcases implName_eq_iff.mp heq with
      ⟨hover, hname, harity⟩ | ⟨hf', hg', hname⟩ | ⟨hg', hf', hname⟩
    · obtain ⟨hne, hf' | hg'⟩ := h.names f hf g hg hne hname
      · exact hne (harity hf')
      · exact hne (harity (hover.trans hg'))
    · exact h.arities f hf g hg hf' hg' hname
    · exact h.arities g hg f hf hg' hf' hname
  have hwrappers {f g : NativeFunction} (hf : f ∈ s.functions) (hg : g ∈ s.functions)
      (hne : f.key ≠ g.key) (front : String) :
      front ++ ident f.name ++ "_" ++ Text.decimal f.arity ≠
        front ++ ident g.name ++ "_" ++ Text.decimal g.arity := by
    intro heq
    obtain ⟨hname, harity⟩ := wrapper_inj heq
    exact (h.names f hf g hg hne hname).1 harity
  have hrest {f g : NativeFunction} (hf : f ∈ s.functions) (hg : g ∈ s.functions)
      (hne : f.key ≠ g.key) {rest : List Char}
      (hname : (implName s g).toList = (implName s f).toList ++ rest) : rest ≠ [] := by
    rintro rfl
    rw [List.append_nil] at hname
    exact hfunctions hg hf hne.symm (String.toList_inj.mp hname)
  refine ⟨fun f hf g hg hne => ⟨hfunctions hf hg hne, hwrappers hf hg hne "export_",
    hwrappers hf hg hne "dispatch_", fun c hc => ⟨?_, fun c' hc' => ?_⟩⟩, fun f hf => ?_,
    fun m hm f hf => ⟨?_, fun c hc => ?_⟩⟩
  · intro heq
    have hname : (implName s g).toList = (implName s f).toList ++ (resultMark ++ labelChars c) := by
      rw [← heq, toList_accessor (hindexed f hf) hc]
    exact (h.results f hf g hg _ (hrest hf hg hne hname) hname c hc).1 rfl
  · intro heq
    have hlists := congrArg String.toList heq
    rw [toList_accessor (hindexed f hf) hc, toList_accessor (hindexed g hg) hc'] at hlists
    rcases List.append_eq_append_iff.mp hlists with ⟨rest, hname, hlabels⟩ | ⟨rest, hname, hlabels⟩
    · exact (h.results f hf g hg _ (hrest hf hg hne hname) hname c hc).2 c' hc' hlabels
    · exact (h.results g hg f hf _ (hrest hg hf hne.symm hname) hname c' hc').2 c hc hlabels
  · obtain ⟨-, hnodup⟩ := hindexed f hf
    rw [List.Nodup, List.pairwise_map] at hnodup ⊢
    refine hnodup.imp_of_mem fun {c c'} hc hc' hne heq => hne ?_
    exact h.clauses f hf c hc c' hc' ((accessorName_eq_iff (hindexed f hf) hc hc').mp heq)
  · intro heq
    have hname := congrArg String.toList heq
    rw [toList_message (hsends m hm)] at hname
    exact ((h.message m hm f hf).2 _ hname.symm).1 rfl
  · intro heq
    have hlists := congrArg String.toList heq
    rw [toList_message (hsends m hm), toList_accessor (hindexed f hf) hc] at hlists
    rcases message_eq_iff.mp hlists with ⟨hname, hlabels⟩ | ⟨rest, hname, hlabels⟩
    · exact (h.message m hm f hf).1 hname c hc hlabels
    · exact ((h.message m hm f hf).2 rest hname).2 c hc hlabels

theorem DifferentSymbols.separated (h : DifferentSymbols s) : Separated s := by
  have hkeys {f g : NativeFunction} (hne : implName s f ≠ implName s g) : f.key ≠ g.key :=
    fun hkey => hne (implName_eq_of_key hkey)
  refine ⟨fun f hf g hg hne hname => ⟨fun harity => ?_, ?_⟩, fun f hf g hg hf' hg' hname => ?_,
    fun f hf c hc c' hc' heq => ?_, fun f hf g hg rest hrest hname c hc => ?_,
    fun m hm f hf => ⟨fun hname c hc hlabels => ?_, fun rest hname => ⟨fun hlabels => ?_, ?_⟩⟩⟩
  · refine (h.functions f hf g hg hne).2.1 ?_
    rw [Nif.exportName, hname, harity, Nif.exportName]
  · by_contra hover
    obtain ⟨hf', hg'⟩ := not_or.mp hover
    refine (h.functions f hf g hg hne).1 ?_
    rw [implName_of_not_isOverloaded (Bool.eq_false_iff.mpr hf'), hname,
      implName_of_not_isOverloaded (Bool.eq_false_iff.mpr hg')]
  · have hne : f.key ≠ g.key := by
      intro hkey
      have hover : isOverloaded s f = isOverloaded s g := by
        rw [isOverloaded, (Prod.mk.inj hkey).1, isOverloaded]
      rw [hf', hg'] at hover
      exact Bool.false_ne_true hover
    exact (h.functions f hf g hg hne).1 (implName_eq_iff.mpr (.inr (.inl ⟨hf', hg', hname⟩)))
  · have hsame := (accessorName_eq_iff (s := s) (hindexed f hf) hc hc').mpr heq
    rw [List.inj_on_of_nodup_map (h.clauses f hf) hc hc' hsame]
  · have hne : f.key ≠ g.key := by
      refine hkeys fun heq => hrest ?_
      rw [heq] at hname
      exact List.append_right_eq_self.mp hname.symm
    have hclause := (h.functions f hf g hg hne).2.2.2 c hc
    refine ⟨fun hlabels => hclause.1 (String.toList_inj.mp ?_), fun c' hc' hlabels =>
      hclause.2 c' hc' (String.toList_inj.mp ?_)⟩
    · rw [toList_accessor (hindexed f hf) hc, hlabels, hname]
    · rw [toList_accessor (hindexed f hf) hc, toList_accessor (hindexed g hg) hc', hlabels, hname,
        List.append_assoc]
  · refine (h.message m hm f hf).2 c hc (String.toList_inj.mp ?_)
    rw [toList_message (hsends m hm), toList_accessor (hindexed f hf) hc]
    exact message_eq_iff.mpr (.inl ⟨hname, hlabels⟩)
  · refine (h.message m hm f hf).1 (String.toList_inj.mp ?_)
    rw [toList_message (hsends m hm), hname, hlabels]
  · intro c hc hlabels
    refine (h.message m hm f hf).2 c hc (String.toList_inj.mp ?_)
    rw [toList_message (hsends m hm), toList_accessor (hindexed f hf) hc]
    exact message_eq_iff.mpr (.inr ⟨rest, hname, hlabels⟩)

end

/-- Plain names keep apart. -/
theorem PlainNames.separated {s : Surface} (h : PlainNames s) : Separated s := by
  have hmark {f : NativeFunction} (hf : f ∈ s.functions) :
      ¬resultMark <:+: (implName s f).toList ++ ['_'] := by
    rw [toList_implName]
    exact resultMark_aritySuffix (h.results f hf)
  have hsend {m : Clause} (hm : m ∈ s.sends) {f : NativeFunction} (hf : f ∈ s.functions) :
      ¬sendMark <+: (implName s f).toList ++ ['_'] := by
    rw [toList_implName, List.append_assoc]
    refine sendMark_append (h.message (Option.isSome_iff_exists.mpr ⟨m, hm⟩) f hf) (.inr ?_)
    rcases aritySuffix_cases s f with hnone | ⟨z, hz⟩
    · exact ⟨[], by rw [hnone]; rfl⟩
    · exact ⟨z ++ ['_'], by rw [hz]; rfl⟩
  refine ⟨fun f hf g hg hne hname => ?_, h.arities, h.clauses,
    fun f hf g hg rest hrest hname c hc => ⟨fun hlabels => ?_, fun c' hc' hlabels => ?_⟩,
    fun m hm f hf => ⟨fun hname => ?_, fun rest hname => ?_⟩⟩
  · have hsame := h.names f hf g hg hname
    exact ⟨fun harity => hne (Prod.ext hsame harity),
      .inl (isOverloaded_of_ne hf hg hsame (mt (congrArg _) hne))⟩
  · refine hmark hg ?_
    rw [hname, ← hlabels]
    exact ⟨(implName s f).toList, labelChars c ++ ['_'], by simp⟩
  · have hlists : (implName s f).toList ++ (resultMark ++ labelChars c) =
        (implName s g).toList ++ (resultMark ++ labelChars c') := by
      rw [hlabels, hname, List.append_assoc]
    obtain ⟨hsame, -⟩ := append_resultMark (hmark hf) (hmark hg) hlists
    rw [← hsame] at hname
    exact hrest (List.append_right_eq_self.mp hname.symm)
  · refine absurd ?_ (hsend hm hf)
    rw [hname]
    exact List.prefix_refl _
  · refine absurd ?_ (hsend hm hf)
    rw [hname, List.append_assoc]
    exact List.prefix_append _ _

/-- **Symbols of a compiled file differ exactly if its names are separated.** Names that are plain
are. -/
theorem symbols_of_compile {file : SourceFile} {s : Surface} (h : file.compile = .ok s) :
    (DifferentSymbols s ↔ Separated s) ∧ (PlainNames s → Separated s) := by
  obtain ⟨hindexed, hsends⟩ := Surface.indexed_of_build (SourceFile.build_of_compile h).2
  exact ⟨⟨DifferentSymbols.separated hindexed hsends, Separated.differentSymbols hindexed hsends⟩,
    PlainNames.separated⟩

/-- An overloaded function with a clause that C cannot spell, beside a function whose name ends in a
number that is none of its arities, one whose name looks like the symbol of a clause, and a message.
-/
theorem symbols_of_compile_overloaded :
    let file : SourceFile := ⟨"a.bspec",
      "sends :f\nspec f() :: :ok | :no?\nspec f(x :: int) :: :ok\n"
        ++ "spec f_2() :: :ok\nspec f_0_result_x() :: :ok"⟩
    let f₀ : NativeFunction :=
      ⟨"f", 0, [], [⟨[.ofLabel "ok"], "f_result_ok"⟩, ⟨[.ofLabel "no?"], "f_result_no?"⟩]⟩
    let f₁ : NativeFunction :=
      ⟨"f", 1, [⟨"x", .named "int"⟩], [⟨[.ofLabel "ok"], "f_result_ok"⟩]⟩
    let g : NativeFunction := ⟨"f_2", 0, [], [⟨[.ofLabel "ok"], "f_2_result_ok"⟩]⟩
    let g' : NativeFunction :=
      ⟨"f_0_result_x", 0, [], [⟨[.ofLabel "ok"], "f_0_result_x_result_ok"⟩]⟩
    let message : Clause := ⟨[.ofLabel "f"], "send_f"⟩
    let s : Surface := { moduleName := "a", functions := [f₀, f₁, g, g'], sends := some message }
    file.compile = .ok s ∧ Separated s ∧ ¬PlainNames s ∧ implName s f₁ = "f_1" ∧
      implName s f₁ ≠ implName s g ∧ (∀ c ∈ f₀.results, accessorName s f₀ c ≠ implName s g') ∧
      (f₀.results.map (accessorName s f₀)).Nodup ∧ ident message.accessor ≠ implName s f₀ := by
  intro file f₀ f₁ g g' message s
  have hcompile : file.compile = .ok s := by decide +kernel
  have hresults : ∀ f ∈ s.functions, ∀ g ∈ s.functions, ∀ rest ∈ (implName s g).toList.tails,
      rest ≠ [] → (implName s g).toList = (implName s f).toList ++ rest → ∀ c ∈ f.results,
        resultMark ++ labelChars c ≠ rest ∧
          ∀ c' ∈ g.results, resultMark ++ labelChars c ≠ rest ++ (resultMark ++ labelChars c') := by
    decide +kernel
  have hmessage : ∀ f ∈ s.functions, (implName s f).toList ≠ "send".toList ∧
      ¬sendMark <+: (implName s f).toList := by
    decide +kernel
  have hs : Separated s := by
    refine ⟨by decide +kernel, by decide +kernel, by decide +kernel,
      fun f hf g hg rest hrest hname => ?_, fun m _ f hf => ⟨fun hname => ?_, fun rest hname => ?_⟩⟩
    · refine hresults f hf g hg rest ((List.mem_tails _ _).mpr ?_) hrest hname
      rw [hname]
      exact List.suffix_append _ _
    · exact absurd hname (hmessage f hf).1
    · exact absurd ⟨rest, hname.symm⟩ (hmessage f hf).2
  have hplain : ¬PlainNames s := by
    intro h
    exact absurd (h.results g' (by simp [s])) (by decide +kernel)
  obtain ⟨hfunctions, hclauses, hmessages⟩ := (symbols_of_compile hcompile).1.mpr hs
  refine ⟨hcompile, hs, hplain, by decide +kernel, ?_, ?_, hclauses f₀ (by simp [s]), ?_⟩
  · exact (hfunctions f₁ (by simp [s]) g (by simp [s]) (by decide)).1
  · intro c hc
    exact ((hfunctions f₀ (by simp [s]) g' (by simp [s]) (by decide)).2.2.2 c hc).1
  · exact (hmessages message rfl f₀ (by simp [s])).1

/-- The symbols of the functions of a text that compiles, each with those of its clauses, and that
of its message. -/
def symbolsOf (text : String) : Option (List (String × List String) × Option String) :=
  (SourceFile.mk "a.bspec" text).compile.toOption.map fun s =>
    (s.functions.map fun f => (implName s f, f.results.map (accessorName s f)),
      s.sends.map fun c => ident c.accessor)

/-- Each condition on the names is needed: characters that C does not have, an arity behind a name,
the mark of results in a name and the mark of messages in front of one all make symbols collide. -/
theorem symbols_collide :
    symbolsOf "spec f() :: :ok? | :ok!" = some ([("f", ["f_result_ok_", "f_result_ok_"])], none) ∧
    symbolsOf "spec f?() :: :a\nspec f!() :: :b" =
      some ([("f_", ["f__result_a"]), ("f_", ["f__result_b"])], none) ∧
    symbolsOf "spec f() :: :ok\nspec f(x :: int) :: :ok\nspec f_1() :: :ok" =
      some ([("f_0", ["f_0_result_ok"]), ("f_1", ["f_1_result_ok"]), ("f_1", ["f_1_result_ok"])],
        none) ∧
    symbolsOf "spec f() :: :ok | :result_ok\nspec f_result_ok() :: :a\nspec f_result() :: :ok" =
      some ([("f", ["f_result_ok", "f_result_result_ok"]),
        ("f_result_ok", ["f_result_ok_result_a"]), ("f_result", ["f_result_result_ok"])], none) ∧
    symbolsOf "sends :ok\nspec send_ok() :: :ok" =
      some ([("send_ok", ["send_ok_result_ok"])], some "send_ok") := by
  refine ⟨?_, ?_, ?_, ?_, ?_⟩ <;> decide +kernel

/-! ## Overloads -/

section
variable {s : Surface} {f g : NativeFunction} {c : Clause} {labels : String}

/-- The symbol of an overload, and those of its clauses, have the arity between two underscores or
at the end. -/
theorem toList_overload (hover : isOverloaded s f) :
    (implName s f).toList = (ident f.name).toList ++ '_' :: Nat.toDigits 10 f.arity := by
  rw [toList_implName, aritySuffix, if_pos hover]

theorem toList_overload_accessor (hover : isOverloaded s f)
    (hform : c.accessor = f.name ++ "_result_" ++ labels) :
    (accessorName s f c).toList =
      (ident f.name).toList ++ '_' :: (Nat.toDigits 10 f.arity
        ++ '_' :: ("result_".toList ++ labels.toList.map identChar)) := by
  rw [toList_accessorName hform, aritySuffix, if_pos hover, List.append_assoc, List.cons_append]
  rfl

theorem implName_ne_of_arity (hf : isOverloaded s f) (hg : isOverloaded s g)
    (harity : f.arity ≠ g.arity) : implName s f ≠ implName s g := by
  intro heq
  have hlists := congrArg String.toList heq
  rw [toList_overload hf, toList_overload hg] at hlists
  obtain ⟨-, hdigits⟩ := append_underscore (underscore_notMem_toDigits _)
    (underscore_notMem_toDigits _) hlists
  exact harity (toDigits_inj hdigits)

variable (hname : f.name = g.name) (hf : isOverloaded s f) (hg : isOverloaded s g)
include hname hf hg

theorem accessorName_ne_of_arity {c' : Clause} {labels' : String} (harity : f.arity ≠ g.arity)
    (hform : c.accessor = f.name ++ "_result_" ++ labels)
    (hform' : c'.accessor = g.name ++ "_result_" ++ labels') :
    accessorName s f c ≠ accessorName s g c' := by
  intro heq
  have hlists := congrArg String.toList heq
  rw [toList_overload_accessor hf hform, toList_overload_accessor hg hform', hname,
    List.append_cancel_left_eq] at hlists
  obtain ⟨hdigits, -⟩ := underscore_append (underscore_notMem_toDigits _)
    (underscore_notMem_toDigits _) (List.cons.inj hlists).2
  exact harity (toDigits_inj hdigits)

/-- Behind the name, an accessor has a second underscore. -/
theorem overload_accessor_ne_implName (hform : c.accessor = f.name ++ "_result_" ++ labels) :
    accessorName s f c ≠ implName s g := by
  intro heq
  have hlists := congrArg String.toList heq
  rw [toList_overload_accessor hf hform, toList_overload hg, hname, List.append_cancel_left_eq]
    at hlists
  have hmem : '_' ∈ Nat.toDigits 10 g.arity := by
    rw [← (List.cons.inj hlists).2]
    simp
  exact underscore_notMem_toDigits _ hmem

end

/-- **Overloads define no symbol twice.** Two functions of one name and different arities have
different implementations, no clause of one has the accessor of a clause of the other, and none has
the symbol of an implementation of either. -/
theorem overloads_of_build {name : String} {ds : List Declaration} {s : Surface}
    (h : Surface.build name ds = .ok s) :
    ∀ f ∈ s.functions, ∀ g ∈ s.functions, f.name = g.name → f.arity ≠ g.arity →
      implName s f ≠ implName s g ∧
      (∀ c ∈ f.results, ∀ c' ∈ g.results, accessorName s f c ≠ accessorName s g c') ∧
      (∀ c ∈ f.results, accessorName s f c ≠ implName s f ∧ accessorName s f c ≠ implName s g) ∧
      ∀ c ∈ g.results, accessorName s g c ≠ implName s f ∧ accessorName s g c ≠ implName s g := by
  intro f hf g hg hname harity
  obtain ⟨hindexed, -⟩ := Surface.indexed_of_build h
  have hne : f ≠ g := fun heq => harity (congrArg _ heq)
  have hfover := isOverloaded_of_ne hf hg hname hne
  have hgover := isOverloaded_of_ne hg hf hname.symm hne.symm
  obtain ⟨hfform, -⟩ := hindexed f hf
  obtain ⟨hgform, -⟩ := hindexed g hg
  refine ⟨implName_ne_of_arity hfover hgover harity, fun c hc c' hc' => ?_, fun c hc => ⟨?_, ?_⟩,
    fun c hc => ⟨?_, ?_⟩⟩
  · exact accessorName_ne_of_arity hname hfover hgover harity (hfform c hc) (hgform c' hc')
  · exact overload_accessor_ne_implName rfl hfover hfover (hfform c hc)
  · exact overload_accessor_ne_implName hname hfover hgover (hfform c hc)
  · exact overload_accessor_ne_implName hname.symm hgover hfover (hgform c hc)
  · exact overload_accessor_ne_implName rfl hgover hgover (hgform c hc)

/-- Overloads whose name is no C identifier and whose arities start with the same digit, with labels
that look like the rest of an accessor. -/
theorem overloads_of_build_digits :
    let word (name : String) : Expr := .ident name {}
    let spec (arity : Nat) (label : String) : Declaration :=
      ⟨⟨"spec", {}⟩, [.typed (.call ⟨"1é", {}⟩ (List.replicate arity (word "int")) {})
        (.atom label {}) {}], {}⟩
    let ds := [spec 1 "1_result_ok", spec 11 "ok"]
    ∃ s f g, Surface.build "m" ds = .ok s ∧ s.functions = [f, g] ∧ f.name = g.name ∧
      f.arity = 1 ∧ g.arity = 11 ∧ f.results.map (accessorName s f) = ["_1__1_result_1_result_ok"] ∧
      implName s f ≠ implName s g ∧ ∀ c ∈ f.results, ∀ c' ∈ g.results,
        accessorName s f c ≠ accessorName s g c' := by
  intro word spec ds
  have h : Surface.build "m" ds = .ok _ := rfl
  refine ⟨_, _, _, h, rfl, rfl, rfl, rfl, by decide +kernel, ?_⟩
  have hapart := overloads_of_build h _ List.mem_cons_self _
    (List.mem_cons_of_mem _ List.mem_cons_self) rfl (by decide)
  exact ⟨hapart.1, hapart.2.1⟩

end C

end NativeInterface
