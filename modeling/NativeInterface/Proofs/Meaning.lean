import NativeInterface.Proofs.Effects

/-!
# The meaning of a file

A surface said at once, as a function of all records of a file (`Surface.ofRecords`): lists in file
order, the last value of each setting, and tables that list each key where it occurs first with the
value that it has last. The builder goes through the file once and changes its tables in place; it
gives the same surface (`Surface.meaning_of_build`).
-/

namespace NativeInterface

/-! ## Tables -/

section putBy
variable {α κ : Type} [DecidableEq κ] {key : α → κ}

/-- A known key keeps its place, and a new one comes last. -/
theorem map_putBy (xs : List α) (x : α) :
    (putBy key xs x).map key =
      if key x ∈ xs.map key then xs.map key else xs.map key ++ [key x] := by
  induction xs with
  | nil => rfl
  | cons y ys ih =>
    rw [putBy]
    split
    · rename_i hkey
      rw [List.map_cons, List.map_cons, hkey, if_pos List.mem_cons_self]
    · rename_i hkey
      rw [List.map_cons, ih, List.map_cons]
      by_cases hmem : key x ∈ ys.map key
      · rw [if_pos hmem, if_pos (List.mem_cons_of_mem _ hmem)]
      · rw [if_neg hmem, if_neg fun h => (List.mem_cons.mp h).elim (hkey ·.symm) hmem,
          List.cons_append]

/-- The key that was put last has the new element, and the others have theirs. -/
theorem find?_putBy (xs : List α) (x : α) (k : κ) :
    (putBy key xs x).find? (key · = k) =
      if key x = k then some x else xs.find? (key · = k) := by
  induction xs with
  | nil => by_cases hx : key x = k <;> simp [putBy, hx]
  | cons y ys ih =>
    rw [putBy]
    split
    · rename_i hkey
      by_cases hx : key x = k <;> simp [hkey, hx]
    · rename_i hkey
      by_cases hy : key y = k
      · subst hy
        simp [Ne.symm hkey]
      · simp [hy, ih]

theorem find?_foldl_putBy (xs : List α) (k : κ) :
    (xs.foldl (putBy key) []).find? (key · = k) = (xs.filter (key · = k)).getLast? := by
  induction xs using List.reverseRecOn with
  | nil => rfl
  | append_singleton xs x ih =>
    rw [List.foldl_concat, find?_putBy, ih, List.filter_append]
    by_cases hkey : key x = k
    · simp [hkey]
    · simp [hkey]

/-- A table without double keys is what its keys find in it. -/
theorem eq_filterMap_find? {xs : List α} (h : (xs.map key).Nodup) :
    xs = (xs.map key).filterMap fun k => xs.find? (key · = k) := by
  induction xs with
  | nil => rfl
  | cons x xs ih =>
    obtain ⟨hnotMem, hnodup⟩ := List.nodup_cons.mp h
    have htail : (xs.map key).filterMap (fun k => (x :: xs).find? (key · = k)) =
        (xs.map key).filterMap fun k => xs.find? (key · = k) := by
      apply List.filterMap_congr
      intro k hk
      have hne : key x ≠ k := fun h => hnotMem (h ▸ hk)
      rw [List.find?_cons_of_neg (by simpa using hne)]
    have hhead : (x :: xs).find? (key · = key x) = some x := by simp
    rw [List.map_cons, List.filterMap_cons, hhead, htail, ← ih hnodup]

variable [BEq κ] [LawfulBEq κ]

/-- Each key of a list once, in order of its first occurrence, with its last element. -/
def lastOfEach (key : α → κ) (xs : List α) : List α :=
  (xs.map key).eraseDups.filterMap fun k => (xs.filter (key · = k)).getLast?

omit [DecidableEq κ] in
theorem eraseDups_concat (ks : List κ) (k : κ) :
    (ks ++ [k]).eraseDups = if k ∈ ks then ks.eraseDups else ks.eraseDups ++ [k] := by
  rw [List.eraseDups_append, List.removeAll]
  by_cases hmem : k ∈ ks
  · rw [if_pos hmem, List.filter_cons_of_neg (by simpa using hmem)]
    exact List.append_nil _
  · rw [if_neg hmem, List.filter_cons_of_pos (by simpa using hmem)]
    rfl

theorem map_foldl_putBy (xs : List α) :
    (xs.foldl (putBy key) []).map key = (xs.map key).eraseDups := by
  induction xs using List.reverseRecOn with
  | nil => rfl
  | append_singleton xs x ih =>
    simp only [List.foldl_concat, map_putBy, ih, List.map_append, List.map_cons, List.map_nil,
      eraseDups_concat, List.mem_eraseDups]

/-- Replacing in place keeps the last element of each key at the place of the first. -/
theorem foldl_putBy (xs : List α) : xs.foldl (putBy key) [] = lastOfEach key xs := by
  have hnodup : ((xs.foldl (putBy key) []).map key).Nodup := by
    apply nodup_map_foldl_putBy
    exact List.nodup_nil
  rw [eq_filterMap_find? hnodup, map_foldl_putBy]
  exact List.filterMap_congr fun k _ => find?_foldl_putBy xs k

theorem map_lastOfEach (xs : List α) : (lastOfEach key xs).map key = (xs.map key).eraseDups := by
  rw [← foldl_putBy, map_foldl_putBy]

theorem nodup_map_lastOfEach (xs : List α) : ((lastOfEach key xs).map key).Nodup := by
  rw [← foldl_putBy]
  apply nodup_map_foldl_putBy
  exact List.nodup_nil

theorem find?_lastOfEach (xs : List α) (k : κ) :
    (lastOfEach key xs).find? (key · = k) = (xs.filter (key · = k)).getLast? := by
  rw [← foldl_putBy, find?_foldl_putBy]

end putBy

/-! ## Records of one kind -/

namespace Record

def moduleName? : Record → Option String
  | .moduleName name => some name
  | _ => none

/-- The tags of an interface record, which may list none. -/
def interface? : Record → Option (Option Interface)
  | .interface tags => some tags
  | _ => none

def stateType? : Record → Option String
  | .stateType name => some name
  | _ => none

def function? : Record → Option RawFunction
  | .function f => some f
  | _ => none

def struct? : Record → Option Struct
  | .struct s => some s
  | _ => none

def enum? : Record → Option Enum
  | .enum e => some e
  | _ => none

def dirtyMarks : Record → List DirtyMark
  | .dirty marks => marks
  | _ => []

def callback? : Record → Option Callback
  | .callback c => some c
  | _ => none

def sends? : Record → Option RawClause
  | .sends c => some c
  | _ => none

end Record

/-- **The surface that the records of a file declare.** -/
def Surface.ofRecords (name : String) (rs : List Record) : Surface where
  moduleName := (rs.filterMap Record.moduleName?).getLast?.getD name
  interface := (rs.filterMap Record.interface?).getLast?.join
  stateType := (rs.filterMap Record.stateType?).getLast?
  functions := (rs.filterMap Record.function?).map RawFunction.indexed
  structs := rs.filterMap Record.struct?
  enums := rs.filterMap Record.enum?
  dirty := lastOfEach DirtyMark.key (rs.flatMap Record.dirtyMarks)
  callbacks := lastOfEach Callback.hook (rs.filterMap Record.callback?)
  sends := (rs.filterMap Record.sends?).getLast?.map RawClause.sent

theorem filterMap_concat {α β : Type} (f : α → Option β) (xs : List α) (x : α) :
    (xs ++ [x]).filterMap f = xs.filterMap f ++ (f x).toList := by
  rw [List.filterMap_append]
  cases hx : f x with
  | none => rw [List.filterMap_cons_none hx, List.filterMap_nil, Option.toList_none]
  | some y => rw [List.filterMap_cons_some hx, List.filterMap_nil, Option.toList_some]

theorem getLast?_append_toList {α : Type} (xs : List α) (x? : Option α) :
    (xs ++ x?.toList).getLast? = x?.or xs.getLast? := by
  rw [List.getLast?_append]
  cases x? with
  | none => rfl
  | some x => rfl

theorem join_or {α : Type} (x? y? : Option (Option α)) : (x?.or y?).join = x?.getD y?.join := by
  cases x? with
  | none => rfl
  | some x => rfl

namespace Surface

/-- One more record: a setting is replaced, a list grows, and a table is changed in place. -/
theorem ofRecords_concat (name : String) (rs : List Record) (r : Record) :
    let s := ofRecords name rs
    ofRecords name (rs ++ [r]) =
      { moduleName := r.moduleName?.getD s.moduleName
        interface := r.interface?.getD s.interface
        stateType := r.stateType?.or s.stateType
        functions := s.functions ++ r.function?.toList.map RawFunction.indexed
        structs := s.structs ++ r.struct?.toList
        enums := s.enums ++ r.enum?.toList
        dirty := r.dirtyMarks.foldl DirtyMark.put s.dirty
        callbacks := r.callback?.toList.foldl Callback.put s.callbacks
        sends := (r.sends?.map RawClause.sent).or s.sends } := by
  simp only [ofRecords, ← foldl_putBy, filterMap_concat, getLast?_append_toList,
    List.flatMap_append, List.flatMap_cons, List.flatMap_nil, List.append_nil, List.foldl_append,
    List.map_append, Option.map_or, Option.getD_or, join_or]
  rfl

/-- What the builder puts in is one more record of the surface. -/
theorem finish_put {b : Builder} {name : String} {rs : List Record}
    (h : b.finish = ofRecords name rs) (r : Record) :
    (b.put r).finish = ofRecords name (rs ++ [r]) := by
  rw [ofRecords_concat, ← h]
  cases r <;> simp [Builder.put, Builder.finish, Record.moduleName?, Record.interface?,
    Record.stateType?, Record.function?, Record.struct?, Record.enum?, Record.dirtyMarks,
    Record.callback?, Record.sends?]

theorem finish_foldl_put (name : String) (rs : List Record) :
    (rs.foldl Builder.put (.ofName name)).finish = ofRecords name rs := by
  induction rs using List.reverseRecOn with
  | nil => rfl
  | append_singleton rs r ih =>
    rw [List.foldl_concat]
    exact finish_put ih r

/-! ## Lookups -/

variable {name : String} {rs : List Record}

theorem dirtyKind?_ofRecords (function : String) (arity : Nat) :
    (ofRecords name rs).dirtyKind? function arity =
      ((rs.flatMap Record.dirtyMarks).filter
        (·.key = (function, arity))).getLast?.map (·.kind) := by
  have hkey : (fun m : DirtyMark => m.function == function && m.arity == arity) =
      fun m => decide (m.key = (function, arity)) := by
    funext m
    rw [Bool.eq_iff_iff]
    simp [DirtyMark.key]
  rw [dirtyKind?, hkey]
  exact congrArg (Option.map _) (find?_lastOfEach _ _)

theorem callback?_ofRecords (hook : Hook) :
    (ofRecords name rs).callback? hook =
      ((rs.filterMap Record.callback?).filter (·.hook = hook)).getLast? :=
  find?_lastOfEach _ hook

/-- **The builder computes the meaning of a file.** All declarations are read, and the surface is
the one that their records declare, with clauses as they are indexed. Tables have every key once, in
order of first occurrence, and a lookup gives what was written last. -/
theorem meaning_of_build {ds : List Declaration} {s : Surface} (h : build name ds = .ok s) :
    ∃ rs, ds.mapM Record.ofDeclaration = .ok rs ∧ s = ofRecords name rs ∧
      (∀ f, .function f ∈ rs → RawClause.index f.name f.results = .ok f.indexed.results) ∧
      (∀ c, .sends c ∈ rs → c.indexSend = .ok c.sent) ∧
      ((s.dirty.map DirtyMark.key).Nodup ∧ s.dirty.map DirtyMark.key =
          ((rs.flatMap Record.dirtyMarks).map DirtyMark.key).eraseDups ∧
        ∀ function arity, s.dirtyKind? function arity =
          ((rs.flatMap Record.dirtyMarks).filter
            (·.key = (function, arity))).getLast?.map (·.kind)) ∧
      (s.callbacks.map Callback.hook).Nodup ∧ s.callbacks.map Callback.hook =
          ((rs.filterMap Record.callback?).map Callback.hook).eraseDups ∧
        ∀ hook, s.callback? hook =
          ((rs.filterMap Record.callback?).filter (·.hook = hook)).getLast? := by
  obtain ⟨b, hb, h⟩ := Outcome.bind_eq_ok.mp h
  obtain ⟨rs, hrs, rfl, hall⟩ := Builder.exists_records hb
  have hs : s = ofRecords name rs := by rw [← finish_foldl_put, Except.ok.inj h]
  subst hs
  refine ⟨rs, hrs, rfl, fun f hf => ?_, fun c hc => ?_, ⟨?_, ?_, ?_⟩, ?_, ?_, ?_⟩
  · obtain ⟨_, _, hadmits⟩ := hall _ hf
    exact hadmits.2.2
  · obtain ⟨_, _, hadmits⟩ := hall _ hc
    exact hadmits.2
  · apply nodup_map_lastOfEach
  · apply map_lastOfEach
  · exact dirtyKind?_ofRecords
  · apply nodup_map_lastOfEach
  · apply map_lastOfEach
  · exact callback?_ofRecords

/-- A file in which every setting is declared twice and marks and callbacks are overwritten. -/
def redeclared : List Declaration :=
  let word (name : String) : Expr := .ident name {}
  let symbol (name : String) : Expr := .atom name {}
  let line (kind : String) (payload : List Expr) : Declaration := ⟨⟨kind, {}⟩, payload, {}⟩
  let marks (pairs : List (String × Nat)) : Expr :=
    .keyword (pairs.map fun p => (⟨p.1, {}⟩, .int p.2 {})) {}
  [line "module" [.dotted ["Old"] {}], line "interface" [symbol "nif"],
    line "dirty" [symbol "cpu", marks [("f", 1), ("g", 0)]], line "callback" [symbol "load"],
    line "callback" [symbol "main", word "loop"], line "state_type" [word "old"],
    line "sends" [symbol "old"], line "spec" [.typed (.call ⟨"f", {}⟩ [word "int"] {})
      (.alt (symbol "ok") (symbol "no") {}) {}],
    line "dirty" [symbol "io", marks [("f", 1), ("h", 2), ("f", 2)]],
    line "callback" [symbol "load", word "start"], line "module" [.dotted ["New"] {}],
    line "state_type" [word "state"], line "interface" [.list [] {}], line "sends" [symbol "new"]]

theorem meaning_of_build_redeclared :
    ∃ s rs, build "m" redeclared = .ok s ∧ redeclared.mapM Record.ofDeclaration = .ok rs ∧
      s = ofRecords "m" rs ∧ s.moduleName = "New" ∧ s.interface = none ∧
      s.dirty = [⟨"f", 1, .io⟩, ⟨"g", 0, .cpu⟩, ⟨"h", 2, .io⟩, ⟨"f", 2, .io⟩] ∧
      s.callbacks = [⟨.load, "start"⟩, ⟨.main, "loop"⟩] ∧
      s.dirtyKind? "f" 1 = ((rs.flatMap Record.dirtyMarks).filter
        (·.key = ("f", 1))).getLast?.map (·.kind) := by
  have h : build "m" redeclared = .ok _ := rfl
  obtain ⟨rs, hrs, hs, -, -, ⟨-, -, hkind⟩, -⟩ := meaning_of_build h
  exact ⟨_, rs, h, hrs, hs, rfl, rfl, rfl, rfl, hkind "f" 1⟩

end Surface
end NativeInterface
