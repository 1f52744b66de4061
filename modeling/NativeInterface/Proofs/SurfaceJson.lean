import NativeInterface.Proofs.JsonReading
import NativeInterface.Proofs.Nesting
import NativeInterface.Surface.Json

/-!
# Reading surfaces back

A surface can be read back from either of its written forms: its JSON value holds everything
(`Surface.ofJson?_toJson`), and is not too deep for the reader (`Surface.plain_toJson`).
-/

namespace NativeInterface

/-! ## Reading a value back -/

namespace Json
variable {α : Type}

theorem field?_of_mem {fields : List (String × Json)} (h : (fields.map (·.1)).Nodup)
    {m : String × Json} (hm : m ∈ fields) : (obj fields).field? m.1 = some m.2 := by
  have hsome : (fields.reverse.find? (·.1 == m.1)).isSome := by
    rw [List.find?_isSome]
    exact ⟨m, List.mem_reverse.mpr hm, beq_self_eq_true m.1⟩
  obtain ⟨m', hm'⟩ := Option.isSome_iff_exists.mp hsome
  have hname : m'.1 = m.1 := by simpa using List.find?_some hm'
  have hmem : m' ∈ fields := List.mem_reverse.mp (List.mem_of_find?_eq_some hm')
  rw [field?, hm', Option.map_some, List.inj_on_of_nodup_map h hmem hm hname]

theorem record?_obj {names : List String} {fields : List (String × Json)}
    (hnames : names = fields.map (·.1)) (h : names.Nodup) :
    record? names (obj fields) = some (fields.map fun m => some m.2) := by
  subst hnames
  rw [record?, List.map_map]
  exact congrArg some (List.map_congr_left fun m hm => field?_of_mem h hm)

theorem list?_map {f : Json → Option α} {g : α → Json} {xs : List α}
    (h : ∀ x ∈ xs, f (g x) = some x) : list? f (arr (xs.map g)) = some xs := by
  rw [list?]
  induction xs with
  | nil => rfl
  | cons x xs ih =>
    rw [List.forall_mem_cons] at h
    rw [List.map_cons, List.mapM_cons, h.1, ih h.2]
    rfl

theorem optional?_ofOption {f : Json → Option α} {g : α → Json} {o : Option α}
    (h : ∀ a ∈ o, f (g a) = some a) (hnull : ∀ a, g a ≠ null) :
    optional? f (some (ofOption g o)) = some o := by
  cases o with
  | none => rfl
  | some a =>
    have hsome : optional? f (some (g a)) = (f (g a)).map some := by
      unfold optional?
      split
      · rename_i heq
        cases heq
      · rename_i heq
        exact absurd (Option.some.inj heq) (hnull a)
      · rename_i heq
        rw [Option.some.inj heq]
    rw [ofOption, hsome, h a rfl]
    rfl

theorem natBelow?_nat {bound n : Nat} (h : n < bound) : (nat n).natBelow? bound = some n :=
  if_pos h

end Json

open Json

theorem Ty.ofJson?_toJson (t : Ty) : ofJson? t.toJson = some t := by
  induction t with
  | named name => rfl
  | list element ih =>
    rw [toJson, ofJson?, ih]
    rfl
  | label => rfl

theorem Param.ofJson?_toJson (p : Param) : ofJson? p.toJson = some p := by
  rw [ofJson?, toJson, record?_obj]
  · simp only [List.map, Ty.ofJson?_toJson]
    rfl
  · rfl
  · decide

theorem ResultItem.ofJson?_toJson (item : ResultItem) : ofJson? item.toJson = some item := by
  have hlabel : optional? str? (some (ofOption str item.label)) = some item.label :=
    optional?_ofOption (fun _ _ => rfl) (by simp)
  rw [ofJson?, toJson, record?_obj]
  · simp only [List.map, hlabel, Ty.ofJson?_toJson]
    rfl
  · rfl
  · decide

theorem Clause.ofJson?_toJson (c : Clause) : ofJson? c.toJson = some c := by
  have hitems := list?_map fun item (_ : item ∈ c.items) => ResultItem.ofJson?_toJson item
  rw [ofJson?, toJson, record?_obj]
  · simp only [List.map, hitems]
    rfl
  · rfl
  · decide

theorem NativeFunction.ofJson?_toJson {f : NativeFunction} (h : f.arity < wordBound) :
    ofJson? f.toJson = some f := by
  have hparams := list?_map fun p (_ : p ∈ f.params) => Param.ofJson?_toJson p
  have hresults := list?_map fun c (_ : c ∈ f.results) => Clause.ofJson?_toJson c
  rw [ofJson?, toJson, record?_obj]
  · simp only [List.map, natBelow?_nat h, hparams, hresults]
    rfl
  · rfl
  · decide

theorem Member.ofJson?_toJson (m : Member) : ofJson? m.toJson = some m := by
  rw [ofJson?, toJson, record?_obj]
  · simp only [List.map, Ty.ofJson?_toJson]
    rfl
  · rfl
  · decide

theorem Struct.ofJson?_toJson (s : Struct) : ofJson? s.toJson = some s := by
  have hmembers := list?_map fun m (_ : m ∈ s.members) => Member.ofJson?_toJson m
  rw [ofJson?, toJson, record?_obj]
  · simp only [List.map, hmembers]
    rfl
  · rfl
  · decide

theorem Json.list?_str (names : List String) : list? str? (arr (names.map str)) = some names :=
  list?_map fun _ _ => rfl

theorem Enum.ofJson?_toJson (e : Enum) : ofJson? e.toJson = some e := by
  rw [ofJson?, toJson, record?_obj]
  · simp only [List.map, list?_str]
    rfl
  · rfl
  · decide

theorem DirtyMark.ofJson?_toJson {d : DirtyMark} (h : d.arity < wordBound) :
    ofJson? d.toJson = some d := by
  have hkind : DirtyKind.ofJson? (str d.kind.text) = some d.kind := by
    cases d.kind <;> rfl
  rw [ofJson?, toJson, record?_obj]
  · simp only [List.map, natBelow?_nat h, hkind]
    rfl
  · rfl
  · decide

theorem Callback.ofJson?_toJson (c : Callback) : ofJson? c.toJson = some c := by
  have hhook : Hook.ofJson? (str c.hook.text) = some c.hook := by
    cases c.hook <;> rfl
  rw [ofJson?, toJson, record?_obj]
  · simp only [List.map, hhook]
    rfl
  · rfl
  · decide

theorem Interface.ofJson?_toJson (i : Interface) : ofJson? i.toJson = some i := by
  cases i with
  | single tag => rfl
  | many tags =>
    rw [toJson, ofJson?, list?_str]
    · rfl
    · simp

/-! ## Levels -/

namespace Json.Plain
variable {n m : Nat}

theorem mono {j : Json} (h : Plain n j) (hle : n ≤ m) : Plain m j := by
  induction h generalizing m with
  | null => exact .null
  | bool => exact .bool
  | int => exact .int
  | str => exact .str
  | arr _ ih =>
    obtain ⟨k, rfl⟩ := Nat.exists_eq_add_of_le' hle
    exact .arr fun j hj => ih j hj (Nat.le_add_left ..)
  | obj _ ih =>
    obtain ⟨k, rfl⟩ := Nat.exists_eq_add_of_le' hle
    exact .obj fun m hm => ih m hm (Nat.le_add_left ..)

theorem arr_map {α : Type} {f : α → Json} {xs : List α} (h : ∀ x ∈ xs, Plain n (f x)) :
    Plain (n + 1) (.arr (xs.map f)) := by
  refine .arr fun j hj => ?_
  obtain ⟨x, hx, rfl⟩ := List.mem_map.mp hj
  exact h x hx

theorem ofOption {α : Type} {f : α → Json} {o : Option α} (h : ∀ a ∈ o, Plain n (f a)) :
    Plain n (.ofOption f o) := by
  cases o with
  | none => exact .null
  | some a => exact h a rfl

end Json.Plain

section
variable {n : Nat}

theorem Ty.plain_toJson {t : Ty} (h : t.depth ≤ n) : Plain (n + 1) t.toJson := by
  induction t generalizing n with
  | named name => exact .obj (by simp [Plain.str])
  | list element ih =>
    rw [depth] at h
    obtain ⟨k, rfl⟩ := Nat.exists_eq_add_of_le' (Nat.lt_of_lt_of_le (Nat.succ_pos _) h)
    exact .obj (by simpa using ih (Nat.le_of_succ_le_succ h))
  | label => exact .str

theorem Param.plain_toJson {p : Param} (h : p.type.depth ≤ n) : Plain (n + 2) p.toJson :=
  .obj (by simp [Plain.str, Ty.plain_toJson h])

theorem ResultItem.plain_toJson {i : ResultItem} (h : i.type.depth ≤ n) :
    Plain (n + 2) i.toJson := by
  have hlabel : Plain (n + 1) (ofOption str i.label) := .ofOption fun _ _ => .str
  exact .obj (by simp [hlabel, Plain.str, Ty.plain_toJson h])

theorem Clause.plain_toJson {c : Clause} (h : ∀ i ∈ c.items, i.type.depth ≤ n) :
    Plain (n + 4) c.toJson := by
  have hitems := Plain.arr_map fun i hi => ResultItem.plain_toJson (h i hi)
  exact .obj (by simp [hitems, Plain.str])

theorem NativeFunction.plain_toJson {f : NativeFunction}
    (hparams : ∀ p ∈ f.params, p.type.depth ≤ n)
    (hresults : ∀ c ∈ f.results, ∀ i ∈ c.items, i.type.depth ≤ n) : Plain (n + 6) f.toJson := by
  have hargs := Plain.arr_map fun p hp => Param.plain_toJson (hparams p hp)
  have hclauses := Plain.arr_map fun c hc => Clause.plain_toJson (hresults c hc)
  have hargs : Plain (n + 5) (arr (f.params.map (·.toJson))) := hargs.mono (by omega)
  exact .obj (by simp [hargs, hclauses, Plain.str, Json.nat, Plain.int])

theorem Struct.plain_toJson {s : Struct} (h : ∀ m ∈ s.members, m.type.depth ≤ n) :
    Plain (n + 4) s.toJson := by
  have hmember : ∀ m ∈ s.members, Plain (n + 2) m.toJson := fun m hm =>
    .obj (by simp [Plain.str, Ty.plain_toJson (h m hm)])
  exact .obj (by simp [Plain.arr_map hmember, Plain.str])

theorem Enum.plain_toJson (e : Enum) : Plain 2 e.toJson := by
  have hvariants := Plain.arr_map fun v (_ : v ∈ e.variants) => (.str : Plain 0 (str v))
  exact .obj (by simp [hvariants, Plain.str])

theorem Interface.plain_toJson (i : Interface) : Plain 1 i.toJson := by
  cases i with
  | single tag => exact .str
  | many tags => exact Plain.arr_map fun _ _ => .str

end

/-! ## Surfaces -/

namespace Surface
variable {s : Surface}

/-- Arities are machine words, and types have no more list layers than an expression may nest. -/
structure Storable (s : Surface) : Prop where
  functions : ∀ f ∈ s.functions, f.arity < wordBound
  dirty : ∀ d ∈ s.dirty, d.arity < wordBound
  types : ∀ t ∈ s.types, t.depth ≤ Parser.maxNesting

theorem ofJson?_toJson (h : s.Storable) : ofJson? s.toJson = some s := by
  have hinterface : optional? Interface.ofJson? (some (ofOption (·.toJson) s.interface)) =
      some s.interface :=
    optional?_ofOption (fun i _ => Interface.ofJson?_toJson i)
      (by rintro (_ | _) <;> simp [Interface.toJson])
  have hstate : optional? str? (some (ofOption str s.stateType)) = some s.stateType :=
    optional?_ofOption (fun _ _ => rfl) (by simp)
  have hfunctions := list?_map fun f hf => NativeFunction.ofJson?_toJson (h.functions f hf)
  have hstructs := list?_map fun d (_ : d ∈ s.structs) => Struct.ofJson?_toJson d
  have henums := list?_map fun e (_ : e ∈ s.enums) => Enum.ofJson?_toJson e
  have hdirty := list?_map fun d hd => DirtyMark.ofJson?_toJson (h.dirty d hd)
  have hcallbacks := list?_map fun c (_ : c ∈ s.callbacks) => Callback.ofJson?_toJson c
  have hsends : optional? Clause.ofJson? (some (ofOption (·.toJson) s.sends)) = some s.sends :=
    optional?_ofOption (fun c _ => Clause.ofJson?_toJson c) (by simp [Clause.toJson])
  rw [ofJson?, toJson, record?_obj]
  · simp only [List.map, hinterface, hstate, hfunctions, hstructs, henums, hdirty, hcallbacks,
      hsends]
    rfl
  · rfl
  · decide

/-- A surface nests a few levels deeper than its types. -/
theorem plain_toJson {n : Nat} (h : ∀ t ∈ s.types, t.depth ≤ n) : Plain (n + 8) s.toJson := by
  have hmembers : ∀ d ∈ s.structs, ∀ m ∈ d.members, m.type.depth ≤ n := by
    intro d hd m hm
    refine h _ (List.mem_append_left _ (List.mem_append_left _ ?_))
    exact List.mem_flatMap.mpr ⟨d, hd, List.mem_map_of_mem hm⟩
  have hparams : ∀ f ∈ s.functions, ∀ p ∈ f.params, p.type.depth ≤ n := by
    intro f hf p hp
    refine h _ (List.mem_append_left _ (List.mem_append_right _ ?_))
    exact List.mem_flatMap.mpr ⟨f, hf, List.mem_append_left _ (List.mem_map_of_mem hp)⟩
  have hresults : ∀ f ∈ s.functions, ∀ c ∈ f.results, ∀ i ∈ c.items, i.type.depth ≤ n := by
    intro f hf c hc i hi
    refine h _ (List.mem_append_left _ (List.mem_append_right _ ?_))
    refine List.mem_flatMap.mpr ⟨f, hf, List.mem_append_right _ ?_⟩
    exact List.mem_flatMap.mpr ⟨c, hc, List.mem_map_of_mem hi⟩
  have hitems : ∀ c ∈ s.sends, ∀ i ∈ c.items, i.type.depth ≤ n := by
    intro c hc i hi
    refine h _ (List.mem_append_right _ ?_)
    exact List.mem_flatMap.mpr ⟨c, Option.mem_toList.mpr hc, List.mem_map_of_mem hi⟩
  have hinterface : Plain (n + 7) (ofOption (·.toJson) s.interface) :=
    .ofOption fun i _ => i.plain_toJson.mono (by omega)
  have hstate : Plain (n + 7) (ofOption str s.stateType) := .ofOption fun _ _ => .str
  have hfunctions : Plain (n + 7) (arr (s.functions.map (·.toJson))) :=
    .arr_map fun f hf => NativeFunction.plain_toJson (hparams f hf) (hresults f hf)
  have hstructs : Plain (n + 7) (arr (s.structs.map (·.toJson))) :=
    .arr_map fun d hd => (Struct.plain_toJson (hmembers d hd)).mono (by omega)
  have henums : Plain (n + 7) (arr (s.enums.map (·.toJson))) :=
    .arr_map fun e _ => e.plain_toJson.mono (by omega)
  have hdirty : Plain (n + 7) (arr (s.dirty.map (·.toJson))) :=
    .arr_map fun d _ => .obj (by simp [Plain.str, Json.nat, Plain.int])
  have hcallbacks : Plain (n + 7) (arr (s.callbacks.map (·.toJson))) :=
    .arr_map fun c _ => .obj (by simp [Plain.str])
  have hsends : Plain (n + 7) (ofOption (·.toJson) s.sends) :=
    .ofOption fun c hc => (Clause.plain_toJson (hitems c hc)).mono (by omega)
  exact .obj (by simp [hinterface, hstate, hfunctions, hstructs, henums, hdirty, hcallbacks, hsends,
    Plain.str])

/-- The surface that a text spells. -/
def read? (text : String) : Option Surface := (Json.read? text).bind ofJson?

theorem plain_of_storable (h : s.Storable) : Plain Json.maxNesting s.toJson :=
  (plain_toJson h.types).mono (by decide)

/-- A surface is read back from its canonical text. -/
theorem read?_canonical (h : s.Storable) : read? s.canonical = some s := by
  have hread := read?_of_takes (takes_compact (plain_of_storable h)) "" (by simp [Blank])
  rw [String.append_empty] at hread
  rw [read?, canonical, hread]
  exact ofJson?_toJson h

/-- A surface is read back from its pretty text, blanks behind it included. -/
theorem read?_pretty (h : s.Storable) (last : String) (hlast : Blank last.toList) :
    read? (s.toJson.pretty ++ last) = some s := by
  rw [read?, pretty, read?_of_takes (takes_prettyAt (plain_of_storable h) 0) last hlast]
  exact ofJson?_toJson h

end Surface

end NativeInterface
