import NativeInterface.Compile
import NativeInterface.Proofs.Resolution
import NativeInterface.Proofs.RoundTrip

/-!
# How deep types nest

A type has no more list layers than the expression that it is read from has levels. So the types of
a compiled surface are no deeper than what the parser lets through.
-/

namespace NativeInterface

/-- How many list layers a type has. -/
def Ty.depth : Ty → Nat
  | named _ | label => 0
  | list element => element.depth + 1

namespace Expr

theorem levels_le_of_mem {e : Expr} {es : List Expr} (h : e ∈ es) : e.levels ≤ levelsOfAll es := by
  induction es with
  | nil => cases h
  | cons x xs ih =>
    rcases List.mem_cons.mp h with rfl | h
    · exact Nat.le_max_left ..
    · exact Nat.le_trans (ih h) (Nat.le_max_right ..)

theorem levels_alternatives {e part : Expr} (h : part ∈ e.alternatives) :
    part.levels ≤ e.levels := by
  fun_induction alternatives e with
  | case1 lhs rhs _ ihl ihr =>
    rcases List.mem_append.mp h with h | h
    · exact Nat.le_trans (ihl h) (Nat.le_max_left ..)
    · exact Nat.le_trans (ihr h) (Nat.le_max_right ..)
  | case2 =>
    obtain rfl := List.mem_singleton.mp h
    exact Nat.le_refl _

theorem levels_items {e part : Expr} (h : part ∈ e.items) : part.levels ≤ e.levels := by
  cases e with
  | tuple => exact Nat.le_succ_of_le (levels_le_of_mem h)
  | _ =>
    obtain rfl := List.mem_singleton.mp h
    exact Nat.le_refl _

end Expr

namespace Record
open NativeInterface.Expr
variable {kind : String} {e : Expr}

/-- The types that a record mentions. -/
def types : Record → List Ty
  | .function f => f.params.map (·.type) ++ f.results.flatMap fun c => c.items.map (·.type)
  | .struct s => s.members.map (·.type)
  | .sends c => c.items.map (·.type)
  | _ => []

theorem depth_ty {t : Ty} (h : ty kind e = .ok t) : t.depth ≤ e.levels := by
  fun_induction ty kind e generalizing t with
  | case1 name span =>
    rw [valueType_ok h]
    exact Nat.zero_le _
  | case2 element _ ih =>
    obtain ⟨u, hu, rfl⟩ := Outcome.map_eq_ok.mp h
    exact Nat.succ_le_succ (Nat.le_trans (ih hu) (levels_le_of_mem List.mem_cons_self))
  | case3 => cases h
  | case4 => cases h

theorem depth_param {p : Param} (h : param kind e = .ok p) : p.type.depth ≤ e.levels := by
  rcases param_ok h with ⟨_, rfl, htype⟩ | ⟨_, _, rfl, htype⟩ | ⟨_, _, _, rfl, htype⟩
  · rw [htype]
    exact Nat.zero_le _
  · rw [htype]
    exact Nat.succ_le_succ (Nat.zero_le _)
  · exact Nat.le_trans (Nat.le_succ_of_le (depth_ty htype)) (Nat.le_max_right ..)

theorem depth_resultItem {i : ResultItem} (h : resultItem kind e = .ok i) :
    i.type.depth ≤ e.levels := by
  rcases resultItem_ok h with ⟨_, rfl⟩ | ⟨p, hp, rfl⟩
  · exact Nat.zero_le _
  · exact depth_param hp

theorem depth_clause {c : RawClause} (h : clause kind e = .ok c) :
    ∀ i ∈ c.items, i.type.depth ≤ e.levels := by
  intro i hi
  obtain ⟨part, hpart, hitem⟩ := exists_of_mem_clause h hi
  exact Nat.le_trans (depth_resultItem hitem) (levels_items hpart)

theorem depth_memberType {t : Ty} (h : memberType kind e = .ok t) : t.depth ≤ e.levels := by
  rcases memberType_ok h with ⟨_, _, rfl, rfl⟩ | ⟨_, _, _, rfl, rfl⟩
  · exact Nat.zero_le _
  · exact Nat.succ_le_succ (Nat.zero_le _)

theorem depth_members {seen : List String} {entries : List (Ident × Expr)} {ms : List Member}
    (h : members kind seen entries = .ok ms) : ∀ m ∈ ms, m.type.depth ≤ levelsOfPairs entries := by
  induction entries generalizing seen ms with
  | nil =>
    cases h
    simp
  | cons entry rest ih =>
    obtain ⟨key, value⟩ := entry
    simp only [members] at h
    split at h
    · cases h
    · obtain ⟨t, ht, h⟩ := Outcome.bind_eq_ok.mp h
      obtain ⟨tail, htail, h⟩ := Outcome.bind_eq_ok.mp h
      cases h
      intro m hm
      rcases List.mem_cons.mp hm with rfl | hm
      · exact Nat.le_trans (depth_memberType ht) (Nat.le_max_left ..)
      · exact Nat.le_trans (ih htail m hm) (Nat.le_max_right ..)

theorem levels_payload {d : Declaration} (h : d.payload = [e]) : e.levels ≤ d.levels := by
  rw [Declaration.levels, h]
  exact levels_le_of_mem List.mem_cons_self

theorem levels_functionHead {kind name : String} {head : Expr} {args : List Expr}
    (h : functionHead kind head = .ok (name, args)) : ∀ arg ∈ args, arg.levels ≤ head.levels := by
  intro arg harg
  unfold functionHead at h
  split at h
  · cases h
    exact Nat.le_succ_of_le (levels_le_of_mem harg)
  · cases h
    cases harg
  · cases h

/-- The types of a record are no deeper than the declaration that it was read from. -/
theorem depth_of_ofDeclaration {d : Declaration} {r : Record} (h : ofDeclaration d = .ok r) :
    ∀ t ∈ r.types, t.depth ≤ d.levels := by
  intro t ht
  cases Read.of_ofDeclaration h with
  | moduleName | interface | stateType | enum | dirty | callback => cases ht
  | @function head result span _ _ _ _ _ hpayload hhead hparams hresults =>
    have hlevels : max head.levels (result.levels + 1) ≤ d.levels := levels_payload hpayload
    rcases List.mem_append.mp ht with ht | ht
    · obtain ⟨p, hp, rfl⟩ := List.mem_map.mp ht
      obtain ⟨arg, harg, hparam⟩ := Outcome.exists_of_mem_mapM hparams hp
      have hargs : arg.levels ≤ head.levels := levels_functionHead hhead arg harg
      have hdepth := depth_param hparam
      omega
    · obtain ⟨c, hc, ht⟩ := List.mem_flatMap.mp ht
      obtain ⟨i, hi, rfl⟩ := List.mem_map.mp ht
      obtain ⟨alternative, halt, hclause⟩ := Outcome.exists_of_mem_mapM hresults hc
      have hdepth := depth_clause hclause i hi
      have hresult := levels_alternatives halt
      omega
  | @struct _ _ backing entries _ _ _ _ hpayload hms =>
    obtain ⟨m, hm, rfl⟩ := List.mem_map.mp ht
    have hlevels : max 1 (levelsOfPairs entries + 1 + 1) ≤ d.levels := levels_payload hpayload
    have hdepth := depth_members hms m hm
    omega
  | sends _ hpayload hc =>
    obtain ⟨i, hi, rfl⟩ := List.mem_map.mp ht
    exact Nat.le_trans (depth_clause hc i hi) (levels_payload hpayload)

end Record

namespace Builder
variable {b b' : Builder}

/-- A declaration adds the types of its record, at most. -/
theorem types_add {d : Declaration} (h : b.add d = .ok b') :
    ∃ r, Record.ofDeclaration d = .ok r ∧
      ∀ t ∈ b'.finish.types, t ∈ b.finish.types ∨ t ∈ r.types := by
  obtain ⟨r, hr, h⟩ := Outcome.bind_eq_ok.mp h
  refine ⟨r, hr, fun t ht => ?_⟩
  cases r with
  | function f =>
    obtain ⟨-, -, results, hresults, rfl⟩ := addFunction_ok h
    have hitems : (results.flatMap fun c => c.items.map (·.type)) =
        f.results.flatMap fun c => c.items.map (·.type) := by
      rw [← List.flatMap_map (f := Clause.items) (g := List.map (·.type)),
        RawClause.indexFrom_items hresults, List.flatMap_map]
    simp only [Surface.types, finish, List.flatMap_append, List.flatMap_singleton, hitems,
      List.mem_append] at ht ⊢
    rcases ht with (ht | ht | ht) | ht
    · exact .inl (.inl (.inl ht))
    · exact .inl (.inl (.inr ht))
    · exact .inr (List.mem_append.mpr ht)
    · exact .inl (.inr ht)
  | struct d =>
    obtain ⟨-, -, rfl⟩ := addStruct_ok h
    simp only [Surface.types, finish, List.flatMap_append, List.flatMap_singleton,
      List.mem_append] at ht ⊢
    rcases ht with ((ht | ht) | ht) | ht
    · exact .inl (.inl (.inl ht))
    · exact .inr ht
    · exact .inl (.inl (.inr ht))
    · exact .inl (.inr ht)
  | sends c =>
    obtain ⟨-, sent, hsent, rfl⟩ := addSends_ok h
    rcases List.mem_append.mp ht with ht | ht
    · exact .inl (List.mem_append_left _ ht)
    · refine .inr ?_
      rw [Record.types, ← RawClause.indexSend_items hsent]
      simpa [finish] using ht
  | enum e =>
    obtain ⟨-, rfl⟩ := addEnum_ok h
    exact .inl ht
  | moduleName | interface | stateType | dirty | callback =>
    cases h
    exact .inl ht

end Builder

/-- Types nest no deeper than the declarations that they come from. -/
theorem Surface.depth_of_build {name : String} {ds : List Declaration} {s : Surface} {n : Nat}
    (h : build name ds = .ok s) (hds : ∀ d ∈ ds, d.levels ≤ n) : ∀ t ∈ s.types, t.depth ≤ n := by
  obtain ⟨b, hb, h⟩ := Outcome.bind_eq_ok.mp h
  cases h
  let Bounded (done : List Declaration) (b : Builder) : Prop :=
    (∀ d ∈ done, d.levels ≤ n) → ∀ t ∈ b.finish.types, t.depth ≤ n
  have hstart : Bounded [] (.ofName name) := fun _ t ht => nomatch ht
  refine Outcome.foldlM_induction Bounded (fun hdone hadd hlevels t ht => ?_) hstart hb hds
  rw [List.forall_mem_append, List.forall_mem_singleton] at hlevels
  obtain ⟨r, hr, htypes⟩ := Builder.types_add hadd
  rcases htypes t ht with ht | ht
  · exact hdone hlevels.1 t ht
  · exact Nat.le_trans (Record.depth_of_ofDeclaration hr t ht) hlevels.2

namespace SourceFile
variable {f : SourceFile} {s : Surface}

/-- A file that compiles has no faults in its lines, and its declarations build the surface. -/
theorem build_of_compile (h : f.compile = .ok s) :
    f.parse.diagnostics.hasErrors = false ∧
      Surface.build (specName f.name) f.parse.declarations = .ok s := by
  unfold compile at h
  dsimp only at h
  split at h
  · cases h
  · rename_i herrors
    split at h
    · rename_i s' hbuild
      cases h
      exact ⟨by simpa using herrors, hbuild⟩
    · cases h

/-- Types of a compiled file nest no deeper than expressions may. -/
theorem depth_of_compile (h : f.compile = .ok s) : ∀ t ∈ s.types, t.depth ≤ Parser.maxNesting := by
  obtain ⟨herrors, hbuild⟩ := build_of_compile h
  refine Surface.depth_of_build hbuild fun d hd => ?_
  rw [(lex_of_parse herrors).2] at hd
  obtain ⟨ks, -, hlevels, -⟩ := Parsed.derives_of_mem_lines hd
  exact hlevels

end SourceFile

end NativeInterface
