import NativeInterface.C.Header
import NativeInterface.Proofs.Builder
import Mathlib.Logic.Relation

/-!
# Resolved types

Every type of a surface that was built from declarations is known where it is used: a primitive, or
a type declared further in front (`Surface.Resolved`). The invariant is kept along the declarations
together with the scope (`Builder.Resolved`). Two consequences for the C side: no struct holds
itself by value, not even through others, and no name is left unresolved.
-/

namespace NativeInterface

/-- The record `r` is declared in `ds` right behind the declarations `front`. -/
def DeclaredBehind (ds front : List Declaration) (r : Record) : Prop :=
  ∃ d back, ds = front ++ d :: back ∧ Record.ofDeclaration d = .ok r

theorem DeclaredBehind.later {ds front : List Declaration} {r : Record}
    (h : DeclaredBehind ds front r) (d : Declaration) : DeclaredBehind (ds ++ [d]) front r := by
  obtain ⟨d', back, rfl, hr⟩ := h
  exact ⟨d', back ++ [d], by simp, hr⟩

theorem declaredBehind_last {ds : List Declaration} {d : Declaration} {r : Record}
    (h : Record.ofDeclaration d = .ok r) : DeclaredBehind (ds ++ [d]) ds r :=
  ⟨d, [], rfl, h⟩

theorem DeclaredBehind.wellFormed {ds front : List Declaration} {r : Record}
    (h : DeclaredBehind ds front r) : r.WellFormed := by
  obtain ⟨_, _, _, hr⟩ := h
  exact Record.wellFormed_of_ofDeclaration hr

namespace Surface
variable {s s' : Surface} {ds front : List Declaration}

/-- The declaration `d` declares the type `name` of the surface. -/
def Declares (s : Surface) (d : Declaration) (name : String) : Prop :=
  (∃ t ∈ s.structs, Record.ofDeclaration d = .ok (.struct t) ∧ t.name = name) ∨
    ∃ e ∈ s.enums, Record.ofDeclaration d = .ok (.enum e) ∧ e.name = name

/-- The name inside a type is a primitive, or a type of the surface that is declared in `front`. -/
def Resolves (s : Surface) (front : List Declaration) (t : Ty) : Prop :=
  ∃ leaf, t.leaf? = some leaf ∧ (isPrimitiveType leaf ∨ ∃ d ∈ front, s.Declares d leaf)

/-- The name inside the type of a field is a primitive, an enum, a struct in front of the one at
`place`, or inside a list the struct `own` that has the field. -/
def ResolvesMember (s : Surface) (place : Nat) (own : String) (t : Ty) : Prop :=
  ∃ leaf, t.leaf? = some leaf ∧
    (isPrimitiveType leaf ∨ (∃ e ∈ s.enums, e.name = leaf) ∨
      (∃ i u, i < place ∧ s.structs[i]? = some u ∧ u.name = leaf) ∨ (leaf = own ∧ t.isList))

/-- The function is declared in `ds`, and all its types behind declarations of theirs. -/
def ResolvesFunction (s : Surface) (ds : List Declaration) (f : NativeFunction) : Prop :=
  ∃ front raw, DeclaredBehind ds front (.function raw) ∧
    f.name = raw.name ∧ f.params = raw.params ∧
    f.results.map (·.items) = raw.results.map (·.items) ∧
    (∀ p ∈ f.params, s.Resolves front p.type) ∧
    ∀ c ∈ f.results, ∀ v ∈ c.values, s.Resolves front v.type

/-- The message is declared in `ds`, and the types of its values behind declarations of theirs. -/
def ResolvesSends (s : Surface) (ds : List Declaration) (c : Clause) : Prop :=
  ∃ front raw, DeclaredBehind ds front (.sends raw) ∧ c.items = raw.items ∧
    ∀ v ∈ c.values, s.Resolves front v.type

/-- **All types of a surface are resolved** in the declarations that it was built from. -/
structure Resolved (s : Surface) (ds : List Declaration) : Prop where
  members : ∀ {j t m}, s.structs[j]? = some t → m ∈ t.members → s.ResolvesMember j t.name m.type
  functions : ∀ {f}, f ∈ s.functions → s.ResolvesFunction ds f
  sends : ∀ {c}, s.sends = some c → s.ResolvesSends ds c

/-! ## Later declarations -/

/-- Types are only added, at the end. -/
structure Extends (s s' : Surface) : Prop where
  structs : s.structs <+: s'.structs
  enums : s.enums <+: s'.enums

theorem Extends.of_eq (hs : s'.structs = s.structs) (he : s'.enums = s.enums) : s.Extends s' :=
  ⟨hs ▸ List.prefix_refl _, he ▸ List.prefix_refl _⟩

theorem Extends.getElem? (h : s.Extends s') {i : Nat} {t : Struct} (ht : s.structs[i]? = some t) :
    s'.structs[i]? = some t := by
  obtain ⟨rest, hrest⟩ := h.structs
  rw [← hrest, List.getElem?_append_left (List.getElem?_eq_some_iff.mp ht).1, ht]

theorem Declares.mono {d : Declaration} {name : String} (h : s.Declares d name)
    (hs : s.Extends s') : s'.Declares d name := by
  rcases h with ⟨t, ht, h⟩ | ⟨e, he, h⟩
  · exact .inl ⟨t, hs.structs.subset ht, h⟩
  · exact .inr ⟨e, hs.enums.subset he, h⟩

theorem Resolves.mono {t : Ty} (h : s.Resolves front t) (hs : s.Extends s') :
    s'.Resolves front t := by
  obtain ⟨leaf, hleaf, h | ⟨d, hd, h⟩⟩ := h
  · exact ⟨leaf, hleaf, .inl h⟩
  · exact ⟨leaf, hleaf, .inr ⟨d, hd, h.mono hs⟩⟩

theorem ResolvesMember.mono {place : Nat} {own : String} {t : Ty}
    (h : s.ResolvesMember place own t) (hs : s.Extends s') : s'.ResolvesMember place own t := by
  obtain ⟨leaf, hleaf, h | ⟨e, he, h⟩ | ⟨i, u, hi, hu, h⟩ | h⟩ := h
  · exact ⟨leaf, hleaf, .inl h⟩
  · exact ⟨leaf, hleaf, .inr (.inl ⟨e, hs.enums.subset he, h⟩)⟩
  · exact ⟨leaf, hleaf, .inr (.inr (.inl ⟨i, u, hi, hs.getElem? hu, h⟩))⟩
  · exact ⟨leaf, hleaf, .inr (.inr (.inr h))⟩

theorem ResolvesFunction.mono {f : NativeFunction} (h : s.ResolvesFunction ds f)
    (hs : s.Extends s') (d : Declaration) : s'.ResolvesFunction (ds ++ [d]) f := by
  obtain ⟨front, raw, hraw, hname, hparams, hresults, hp, hc⟩ := h
  exact ⟨front, raw, hraw.later d, hname, hparams, hresults, fun p hmem => (hp p hmem).mono hs,
    fun c hmem v hv => (hc c hmem v hv).mono hs⟩

theorem ResolvesSends.mono {c : Clause} (h : s.ResolvesSends ds c) (hs : s.Extends s')
    (d : Declaration) : s'.ResolvesSends (ds ++ [d]) c := by
  obtain ⟨front, raw, hraw, hitems, hv⟩ := h
  exact ⟨front, raw, hraw.later d, hitems, fun v hmem => (hv v hmem).mono hs⟩

/-- One more declaration: what it adds has to be resolved, the rest stays so. -/
theorem Resolved.step (h : s.Resolved ds) (hs : s.Extends s') (d : Declaration)
    (members : ∀ {j t m}, s'.structs[j]? = some t → m ∈ t.members →
      s.structs[j]? = some t ∨ s'.ResolvesMember j t.name m.type)
    (functions : ∀ {f}, f ∈ s'.functions → f ∈ s.functions ∨ s'.ResolvesFunction (ds ++ [d]) f)
    (sends : ∀ {c}, s'.sends = some c → s.sends = some c ∨ s'.ResolvesSends (ds ++ [d]) c) :
    s'.Resolved (ds ++ [d]) where
  members ht hm := (members ht hm).elim (fun ht => (h.members ht hm).mono hs) id
  functions hf := (functions hf).elim (fun hf => (h.functions hf).mono hs d) id
  sends hc := (sends hc).elim (fun hc => (h.sends hc).mono hs d) id

end Surface

/-! ## The scope along the declarations -/

namespace RawClause

theorem indexFrom_items {function : String} {index : Nat} {seen : List String}
    {cs : List RawClause} {results : List Clause}
    (h : indexFrom function index seen cs = .ok results) :
    results.map (·.items) = cs.map (·.items) := by
  induction cs generalizing index seen results with
  | nil =>
    cases h
    rfl
  | cons c cs ih =>
    obtain ⟨_, _, h⟩ := Outcome.bind_eq_ok.mp h
    simp only at h
    split at h
    · cases h
    · obtain ⟨rest, hrest, h⟩ := Outcome.bind_eq_ok.mp h
      cases h
      rw [List.map_cons, List.map_cons, ih hrest]

theorem indexSend_items {c : RawClause} {sent : Clause} (h : c.indexSend = .ok sent) :
    sent.items = c.items := by
  obtain ⟨_, _, h⟩ := Outcome.bind_eq_ok.mp h
  cases h
  rfl

end RawClause

namespace Builder
variable {b b' : Builder} {done : List Declaration}

/-- The types of the surface so far are resolved, and the scope holds only types of the surface
that have been declared. -/
structure Resolved (b : Builder) (done : List Declaration) : Prop where
  surface : b.finish.Resolved done
  scope : ∀ {name}, name ∈ b.scope.declared → ∃ d ∈ done, b.finish.Declares d name

theorem resolved_ofName (name : String) : (ofName name).Resolved [] where
  surface := by
    refine ⟨fun h _ => ?_, fun h => ?_, fun h => ?_⟩
    all_goals cases h
  scope h := nomatch h

namespace Resolved
variable {d : Declaration} {span : Span}

section
variable (h : b.Resolved done)
include h

theorem of_knows {leaf : String} (hk : b.scope.knows leaf) :
    isPrimitiveType leaf ∨ ∃ d ∈ done, b.finish.Declares d leaf := by
  unfold Scope.knows at hk
  rcases Bool.or_eq_true_iff.mp hk with hk | hk
  · exact .inl hk
  · exact .inr (h.scope (Scope.isDeclared_iff.mp hk))

/-- A type that was checked in the scope is resolved. -/
theorem of_checkTypes {usedIn : String} {ts : List Ty}
    (hts : b.scope.checkTypes usedIn span ts = .ok ()) {t : Ty} (ht : t ∈ ts) (hv : t.IsValue) :
    b.finish.Resolves done t := by
  obtain ⟨leaf, hleaf⟩ := hv
  have hcheck := Outcome.forM_eq_ok.mp hts t ht
  simp only [Scope.checkType, hleaf] at hcheck
  split at hcheck
  · exact ⟨leaf, hleaf, h.of_knows ‹_›⟩
  · cases hcheck

/-- Where the scope stays as it is, what it holds is still declared. -/
theorem scope_mono (hs : b.finish.Extends b'.finish) (hscope : b'.scope = b.scope) (d : Declaration)
    {name : String} (hname : name ∈ b'.scope.declared) :
    ∃ d' ∈ done ++ [d], b'.finish.Declares d' name := by
  rw [hscope] at hname
  obtain ⟨d', hd', hdecl⟩ := h.scope hname
  exact ⟨d', List.mem_append_left _ hd', hdecl.mono hs⟩

theorem addFunction {f : RawFunction} (hd : Record.ofDeclaration d = .ok (.function f))
    (hadd : b.addFunction f = .ok b') : b'.Resolved (done ++ [d]) := by
  obtain ⟨-, hcheck, results, hresults, hb'⟩ := addFunction_ok hadd
  have hext : b.finish.Extends b'.finish := .of_eq (hb' ▸ rfl) (hb' ▸ rfl)
  have hitems := RawClause.indexFrom_items hresults
  subst hb'
  obtain ⟨hparams, hclauses⟩ := Record.wellFormed_of_ofDeclaration hd
  refine ⟨h.surface.step hext d (fun ht _ => .inl ht) (fun hg => ?_) .inl, h.scope_mono hext rfl d⟩
  rcases List.mem_append.mp hg with hg | hg
  · exact .inl hg
  · rw [List.mem_singleton.mp hg]
    refine .inr ⟨done, f, declaredBehind_last hd, rfl, rfl, hitems, fun p hp => ?_,
      fun c hc v hv => ?_⟩
    · exact (h.of_checkTypes hcheck (List.mem_append_left _ (List.mem_map_of_mem hp))
        (hparams p hp)).mono hext
    · obtain ⟨raw, hraw, hsame⟩ := List.mem_map.mp (hitems ▸ List.mem_map_of_mem hc)
      obtain ⟨hv, hlabel⟩ := List.mem_filter.mp hv
      rw [← hsame] at hv
      have hlabel : v.isLabel = false := by simpa using hlabel
      refine (h.of_checkTypes hcheck
        (List.mem_append_right _ (List.mem_flatMap.mpr ⟨raw, hraw, ?_⟩))
        ((hclauses raw hraw v hv).isValue hlabel)).mono hext
      exact List.mem_map_of_mem (List.mem_filter.mpr ⟨hv, by simp [hlabel]⟩)

/-- A member that was checked in the scope is resolved by the structs and enums so far. -/
theorem of_checkMember {own : String} {m : Member}
    (hcheck : b.scope.checkMember own span m = .ok ()) (hv : m.type.IsValue) :
    b.finish.ResolvesMember b.structs.length own m.type := by
  obtain ⟨leaf, hleaf⟩ := hv
  refine ⟨leaf, hleaf, ?_⟩
  simp only [Scope.checkMember, hleaf] at hcheck
  split at hcheck
  · rename_i hk
    rcases Bool.or_eq_true_iff.mp hk with hk | hk
    · rcases h.of_knows hk with hk | ⟨_, -, ⟨t, ht, -, hname⟩ | ⟨e, he, -, hname⟩⟩
      · exact .inl hk
      · obtain ⟨i, hi, hget⟩ := List.getElem_of_mem ht
        exact .inr (.inr (.inl ⟨i, t, hi, List.getElem?_eq_some_iff.mpr ⟨hi, hget⟩, hname⟩))
      · exact .inr (.inl ⟨e, he, hname⟩)
    · rw [Bool.and_eq_true, beq_iff_eq] at hk
      exact .inr (.inr (.inr hk))
  · cases hcheck

theorem addStruct {t : Struct} (hd : Record.ofDeclaration d = .ok (.struct t))
    (hadd : b.addStruct span t = .ok b') : b'.Resolved (done ++ [d]) := by
  obtain ⟨-, hcheck, hb'⟩ := addStruct_ok hadd
  have hext : b.finish.Extends b'.finish := by
    subst hb'
    exact ⟨List.prefix_append .., List.prefix_refl _⟩
  obtain ⟨-, hmembers⟩ := Record.wellFormed_of_ofDeclaration hd
  subst hb'
  constructor
  · refine h.surface.step hext d (fun {j u m} hu hm => ?_) .inl .inl
    change (b.structs ++ [t])[j]? = some u at hu
    rw [List.getElem?_append] at hu
    split at hu
    · exact .inl hu
    · rename_i hj
      obtain ⟨hlt, hget⟩ := List.getElem?_eq_some_iff.mp hu
      have hlast : j = b.structs.length := by
        rw [List.length_singleton] at hlt
        omega
      subst hlast
      rw [List.getElem_singleton] at hget
      subst hget
      exact .inr ((h.of_checkMember (Outcome.forM_eq_ok.mp hcheck m hm) (hmembers m hm)).mono hext)
  · intro name hname
    rcases Scope.mem_declare.mp hname with rfl | hname
    · exact ⟨d, List.mem_append_right _ List.mem_cons_self,
        .inl ⟨t, List.mem_append_right _ List.mem_cons_self, hd, rfl⟩⟩
    · obtain ⟨d', hd', hdecl⟩ := h.scope hname
      exact ⟨d', List.mem_append_left _ hd', hdecl.mono hext⟩

theorem addEnum {e : Enum} (hd : Record.ofDeclaration d = .ok (.enum e))
    (hadd : b.addEnum span e = .ok b') : b'.Resolved (done ++ [d]) := by
  obtain ⟨-, hb'⟩ := addEnum_ok hadd
  have hext : b.finish.Extends b'.finish := by
    subst hb'
    exact ⟨List.prefix_refl _, List.prefix_append ..⟩
  subst hb'
  refine ⟨h.surface.step hext d (fun hu _ => .inl hu) .inl .inl, fun hname => ?_⟩
  rcases Scope.mem_declare.mp hname with rfl | hname
  · exact ⟨d, List.mem_append_right _ List.mem_cons_self,
      .inr ⟨e, List.mem_append_right _ List.mem_cons_self, hd, rfl⟩⟩
  · obtain ⟨d', hd', hdecl⟩ := h.scope hname
    exact ⟨d', List.mem_append_left _ hd', hdecl.mono hext⟩

theorem addSends {c : RawClause} (hd : Record.ofDeclaration d = .ok (.sends c))
    (hadd : b.addSends c = .ok b') : b'.Resolved (done ++ [d]) := by
  obtain ⟨hcheck, sent, hsent, hb'⟩ := addSends_ok hadd
  have hext : b.finish.Extends b'.finish := .of_eq (hb' ▸ rfl) (hb' ▸ rfl)
  have hitems := RawClause.indexSend_items hsent
  have hclause : ∀ i ∈ c.items, i.WellTyped := Record.wellFormed_of_ofDeclaration hd
  subst hb'
  refine ⟨h.surface.step hext d (fun hu _ => .inl hu) .inl fun hc => .inr ?_,
    h.scope_mono hext rfl d⟩
  cases hc
  refine ⟨done, c, declaredBehind_last hd, hitems, fun v hv => ?_⟩
  obtain ⟨hv, hlabel⟩ := List.mem_filter.mp hv
  rw [hitems] at hv
  have hvalue := (hclause v hv).isValue (by simpa using hlabel)
  exact (h.of_checkTypes hcheck (List.mem_map_of_mem (List.mem_filter.mpr ⟨hv, hlabel⟩))
    hvalue).mono hext

/-- A declaration that changes neither types nor functions nor the message. -/
theorem other (d : Declaration) (hstructs : b'.structs = b.structs) (henums : b'.enums = b.enums)
    (hfunctions : b'.functions = b.functions) (hsends : b'.sends = b.sends)
    (hscope : b'.scope = b.scope) : b'.Resolved (done ++ [d]) := by
  have hext : b.finish.Extends b'.finish := .of_eq hstructs henums
  refine ⟨h.surface.step hext d (fun ht _ => .inl ?_) (fun hf => .inl ?_) (fun hc => .inl ?_),
    h.scope_mono hext hscope d⟩
  · rwa [show b'.finish.structs = b.finish.structs from hstructs] at ht
  · rwa [show b'.finish.functions = b.finish.functions from hfunctions] at hf
  · rwa [show b'.finish.sends = b.finish.sends from hsends] at hc

/-- Each declaration that succeeds keeps all types resolved. -/
theorem add (hadd : b.add d = .ok b') : b'.Resolved (done ++ [d]) := by
  obtain ⟨r, hd, hadd⟩ := Outcome.bind_eq_ok.mp hadd
  cases r with
  | function f => exact h.addFunction hd hadd
  | struct t => exact h.addStruct hd hadd
  | enum e => exact h.addEnum hd hadd
  | sends c => exact h.addSends hd hadd
  | moduleName | interface | stateType | dirty | callback =>
    cases hadd
    exact h.other d rfl rfl rfl rfl rfl

end

end Resolved

/-- Declarations that all succeed lead to a builder whose keys are distinct and whose types are
resolved. -/
theorem wellKeyed_of_foldlM {name : String} {ds : List Declaration}
    (h : ds.foldlM add (ofName name) = .ok b) : b.WellKeyed ∧ b.Resolved ds :=
  Outcome.foldlM_induction (fun done b => b.WellKeyed ∧ b.Resolved done)
    (fun hb hadd => ⟨hb.1.add hadd, hb.2.add hadd⟩) ⟨wellKeyed_ofName name, resolved_ofName name⟩ h

end Builder

namespace Surface
variable {name : String} {s : Surface} {ds : List Declaration} {leaf : String}

theorem exists_builder (h : Surface.build name ds = .ok s) :
    ∃ b : Builder, b.finish = s ∧ b.WellKeyed ∧ b.Resolved ds := by
  obtain ⟨b, hb, h⟩ := Outcome.bind_eq_ok.mp h
  exact ⟨b, Except.ok.inj h, Builder.wellKeyed_of_foldlM hb⟩

/-! ## Structs inside structs -/

/-- The struct `a` has a field that is the struct `b` itself and no list of it. What a name refers
to is decided as in the generated code, where a primitive wins over a struct of the same name. -/
def HoldsByValue (s : Surface) (a b : Struct) : Prop :=
  a ∈ s.structs ∧ b ∈ s.structs ∧
    ∃ m ∈ a.members, m.type = .named b.name ∧ C.classify s b.name = .struct b.name

/-- The definition of `b` stands in front of that of `a` among the C types. -/
def DefinedBefore (s : Surface) (b a : Struct) : Prop :=
  ∃ front between back,
    C.typeItems s = front ++ C.structItems s b ++ between ++ C.structItems s a ++ back

theorem definedBefore_of_lt {i j : Nat} {a b : Struct} (hij : i < j)
    (hb : s.structs[i]? = some b) (ha : s.structs[j]? = some a) : s.DefinedBefore b a := by
  obtain ⟨hi, hb⟩ := List.getElem?_eq_some_iff.mp hb
  obtain ⟨hj, ha⟩ := List.getElem?_eq_some_iff.mp ha
  have hmem : b ∈ s.structs.take j :=
    List.mem_take_iff_getElem.mpr ⟨i, by omega, hb⟩
  obtain ⟨front, between, hfront⟩ := List.append_of_mem hmem
  have hcut : s.structs = front ++ b :: between ++ a :: s.structs.drop (j + 1) := by
    rw [← hfront, ← ha, List.getElem_cons_drop, List.take_append_drop]
  have hitems := congrArg (List.flatMap (C.structItems s)) hcut
  simp only [List.flatMap_append, List.flatMap_cons] at hitems
  have hne : s.structs.isEmpty = false := by
    rw [List.isEmpty_eq_false_iff]
    exact List.ne_nil_of_mem (List.mem_of_mem_take hmem)
  refine ⟨s.enums.flatMap C.enumItems ++ s.structs.map C.structName ++ .blank ::
    front.flatMap (C.structItems s), between.flatMap (C.structItems s),
    (s.structs.drop (j + 1)).flatMap (C.structItems s), ?_⟩
  rw [C.typeItems, hne, if_neg Bool.false_ne_true, hitems]
  simp only [List.append_assoc, List.cons_append]

/-- The two tables of primitive names agree. -/
theorem isPrimitiveType_eq (name : String) :
    isPrimitiveType name = (C.Primitive.ofName? name).isSome := by
  unfold C.Primitive.ofName?
  split <;> simp_all [isPrimitiveType, primitiveTypes]

theorem classify_of_isPrimitiveType (h : isPrimitiveType leaf) :
    ∃ p, C.classify s leaf = .primitive p := by
  rw [isPrimitiveType_eq] at h
  obtain ⟨p, hp⟩ := Option.isSome_iff_exists.mp h
  exact ⟨p, by rw [C.classify, hp]⟩

section
variable {b : Builder} (hkeys : b.WellKeyed) (htypes : b.Resolved ds)
include hkeys

theorem structs_nodup : (b.structs.map (·.name)).Nodup := (List.nodup_append.mp hkeys.aliases).1

include htypes

/-- A struct that is held by value has a smaller index. -/
theorem exists_lt_of_holdsByValue {x y : Struct} (h : b.finish.HoldsByValue x y) :
    ∃ i j : Nat, i < j ∧ b.structs[i]? = some y ∧ b.structs[j]? = some x := by
  obtain ⟨hx, hy, m, hm, htype, hclass⟩ := h
  obtain ⟨j, hj⟩ := List.mem_iff_getElem?.mp hx
  obtain ⟨leaf, hleaf, hcase⟩ := htypes.surface.members hj hm
  rw [htype] at hleaf
  cases hleaf
  rcases hcase with hprim | ⟨e, he, hname⟩ | ⟨i, u, hij, hu, hname⟩ | ⟨-, hlist⟩
  · obtain ⟨p, hp⟩ := classify_of_isPrimitiveType (s := b.finish) hprim
    rw [hp] at hclass
    cases hclass
  · have hdisjoint := (List.nodup_append.mp hkeys.aliases).2.2
    exact (hdisjoint _ (List.mem_map_of_mem hy) _ (List.mem_map_of_mem he) hname.symm).elim
  · have hmem : u ∈ b.structs := List.mem_of_getElem? hu
    have heq : u = y := List.inj_on_of_nodup_map (structs_nodup hkeys) hmem hy hname
    exact ⟨i, j, hij, heq ▸ hu, hj⟩
  · rw [htype] at hlist
    cases hlist

theorem idxOf_lt_of_holdsByValue {x y : Struct} (h : b.finish.HoldsByValue x y) :
    b.structs.idxOf y < b.structs.idxOf x := by
  obtain ⟨i, j, hij, hy, hx⟩ := exists_lt_of_holdsByValue hkeys htypes h
  have hnodup : b.structs.Nodup := (structs_nodup hkeys).of_map _
  obtain ⟨hi, rfl⟩ := List.getElem?_eq_some_iff.mp hy
  obtain ⟨hj, rfl⟩ := List.getElem?_eq_some_iff.mp hx
  rw [hnodup.idxOf_getElem, hnodup.idxOf_getElem]
  exact hij

theorem holdsByValue_acyclic (x : Struct) : ¬Relation.TransGen b.finish.HoldsByValue x x := by
  have hlt {y z : Struct} (h : Relation.TransGen b.finish.HoldsByValue y z) :
      b.structs.idxOf z < b.structs.idxOf y := by
    induction h with
    | single h => exact idxOf_lt_of_holdsByValue hkeys htypes h
    | tail _ h ih => exact Nat.lt_trans (idxOf_lt_of_holdsByValue hkeys htypes h) ih
  exact fun h => Nat.lt_irrefl _ (hlt h)

end

/-! ## Names on the C side -/

/-- All types that are written in a surface. -/
def types (s : Surface) : List Ty :=
  s.structs.flatMap (fun t => t.members.map (·.type)) ++
    s.functions.flatMap (fun f => f.params.map (·.type) ++
      f.results.flatMap fun c => c.items.map (·.type)) ++
    s.sends.toList.flatMap fun c => c.items.map (·.type)

/-- A primitive, or a type of the surface. -/
def Known (s : Surface) (leaf : String) : Prop :=
  isPrimitiveType leaf ∨ (∃ t ∈ s.structs, t.name = leaf) ∨ ∃ e ∈ s.enums, e.name = leaf

theorem Known.classify_ne_unresolved (h : s.Known leaf) (n : String) :
    C.classify s leaf ≠ .unresolved n := by
  rcases h with h | h
  · obtain ⟨p, hp⟩ := classify_of_isPrimitiveType (s := s) h
    rw [hp]
    exact fun h => nomatch h
  · have hfound : (s.struct? leaf).isSome ∨ (s.enum? leaf).isSome := by
      rcases h with ⟨t, ht, hname⟩ | ⟨e, he, hname⟩
      · exact .inl (List.find?_isSome.mpr ⟨t, ht, beq_iff_eq.mpr hname⟩)
      · exact .inr (List.find?_isSome.mpr ⟨e, he, beq_iff_eq.mpr hname⟩)
    unfold C.classify
    split
    · exact fun h => nomatch h
    · split
      · exact fun h => nomatch h
      · split
        · exact fun h => nomatch h
        · rename_i hstruct henum
          exact (hfound.elim hstruct henum).elim

theorem Resolves.known {front : List Declaration} {t : Ty} (h : s.Resolves front t)
    (hleaf : t.leaf? = some leaf) : s.Known leaf := by
  obtain ⟨leaf', hleaf', h⟩ := h
  cases hleaf.symm.trans hleaf'
  rcases h with h | ⟨_, -, ⟨t, ht, -, hname⟩ | ⟨e, he, -, hname⟩⟩
  · exact .inl h
  · exact .inr (.inl ⟨t, ht, hname⟩)
  · exact .inr (.inr ⟨e, he, hname⟩)

theorem ResolvesMember.known {j : Nat} {t : Struct} {type : Ty} (h : s.ResolvesMember j t.name type)
    (ht : t ∈ s.structs) (hleaf : type.leaf? = some leaf) : s.Known leaf := by
  obtain ⟨leaf', hleaf', h⟩ := h
  cases hleaf.symm.trans hleaf'
  rcases h with h | ⟨e, he, hname⟩ | ⟨_, u, -, hu, hname⟩ | ⟨hname, -⟩
  · exact .inl h
  · exact .inr (.inr ⟨e, he, hname⟩)
  · exact .inr (.inl ⟨u, List.mem_of_getElem? hu, hname⟩)
  · exact .inr (.inl ⟨t, ht, hname.symm⟩)

/-- Only the values of a clause have a name inside their types. -/
theorem known_of_item {c : Clause} {front : List Declaration} {i : ResultItem}
    (hitems : ∀ i ∈ c.items, i.WellTyped) (h : ∀ v ∈ c.values, s.Resolves front v.type)
    (hi : i ∈ c.items) (hleaf : i.type.leaf? = some leaf) : s.Known leaf := by
  have hlabel := (hitems i hi).not_isLabel hleaf
  have hvalue : i ∈ c.values := List.mem_filter.mpr ⟨hi, by rw [hlabel]; rfl⟩
  exact (h i hvalue).known hleaf

theorem Resolved.known (h : s.Resolved ds) {t : Ty} (ht : t ∈ s.types)
    (hleaf : t.leaf? = some leaf) : s.Known leaf := by
  rcases List.mem_append.mp ht with ht | ht
  · rcases List.mem_append.mp ht with ht | ht
    · obtain ⟨d, hd, ht⟩ := List.mem_flatMap.mp ht
      obtain ⟨m, hm, rfl⟩ := List.mem_map.mp ht
      obtain ⟨j, hj⟩ := List.mem_iff_getElem?.mp hd
      exact (h.members hj hm).known hd hleaf
    · obtain ⟨f, hf, ht⟩ := List.mem_flatMap.mp ht
      obtain ⟨front, raw, hraw, -, -, hresults, hparams, hvalues⟩ := h.functions hf
      rcases List.mem_append.mp ht with ht | ht
      · obtain ⟨p, hp, rfl⟩ := List.mem_map.mp ht
        exact (hparams p hp).known hleaf
      · obtain ⟨c, hc, ht⟩ := List.mem_flatMap.mp ht
        obtain ⟨i, hi, rfl⟩ := List.mem_map.mp ht
        obtain ⟨rc, hrc, hsame⟩ := List.mem_map.mp (hresults ▸ List.mem_map_of_mem hc)
        have hitems : ∀ i ∈ c.items, i.WellTyped := hsame ▸ hraw.wellFormed.2 rc hrc
        exact known_of_item hitems (hvalues c hc) hi hleaf
  · obtain ⟨c, hc, ht⟩ := List.mem_flatMap.mp ht
    obtain ⟨i, hi, rfl⟩ := List.mem_map.mp ht
    obtain ⟨front, raw, hraw, hsame, hvalues⟩ := h.sends (Option.mem_toList.mp hc)
    have hitems : ∀ i ∈ c.items, i.WellTyped := hsame ▸ hraw.wellFormed
    exact known_of_item hitems hvalues hi hleaf

/-- **Types of a built surface.** They are resolved in front of their use; structs that hold each
other by value have an order, in which their definitions are written; no name is unresolved on the C
side, since both sides know the same primitives. -/
theorem types_of_build (h : Surface.build name ds = .ok s) :
    s.Resolved ds ∧
      (∀ a b, s.HoldsByValue a b → s.DefinedBefore b a ∧
        ∃ i j : Nat, i < j ∧ s.structs[i]? = some b ∧ s.structs[j]? = some a) ∧
      (∀ a, ¬Relation.TransGen s.HoldsByValue a a) ∧
      (∀ t ∈ s.types, ∀ leaf, t.leaf? = some leaf → ∀ n, C.classify s leaf ≠ .unresolved n) ∧
      ∀ leaf, isPrimitiveType leaf = (C.Primitive.ofName? leaf).isSome := by
  obtain ⟨b, rfl, hkeys, htypes⟩ := exists_builder h
  refine ⟨htypes.surface, fun x y hxy => ?_, holdsByValue_acyclic hkeys htypes,
    fun t ht leaf hleaf => ?_, isPrimitiveType_eq⟩
  · obtain ⟨i, j, hij, hy, hx⟩ := exists_lt_of_holdsByValue hkeys htypes hxy
    exact ⟨definedBefore_of_lt hij hy hx, i, j, hij, hy, hx⟩
  · exact (htypes.surface.known ht hleaf).classify_ne_unresolved

/-- An enum, a struct that holds it, a struct that holds the first one and a list of itself, a
function over lists of lists and a message. -/
def mapDeclarations : List Declaration :=
  let word (name : String) : Expr := .ident name {}
  let typed (name : String) (rhs : Expr) : Expr := .typed (word name) rhs {}
  let entry (name : String) (value : Expr) : Ident × Expr := (⟨name, {}⟩, value)
  let line (kind : String) (e : Expr) : Declaration := ⟨⟨kind, {}⟩, [e], {}⟩
  let result (values : List Expr) : Expr := .tuple (.atom "ok" {} :: values) {}
  [line "type" (typed "tint" (.alt (.atom "red" {}) (.atom "green" {}) {})),
    line "type" (typed "point" (.map ["Map", "Point"]
      [entry "x" (word "int"), entry "tint" (word "tint")] {})),
    line "type" (typed "node" (.map ["Map", "Node"]
      [entry "at" (word "point"), entry "next" (.list [word "node"] {})] {})),
    line "spec" (.typed (.call ⟨"walk", {}⟩ [typed "start" (word "node"), word "int"] {})
      (result [typed "way" (.list [.list [word "point"] {}] {})]) {}),
    line "sends" (result [word "node"])]

theorem types_of_build_map :
    ∃ s, Surface.build "map" mapDeclarations = .ok s ∧
      s.structs.map (·.name) = ["point", "node"] ∧ s.functions.length = 1 ∧ s.sends.isSome ∧
      s.Resolved mapDeclarations ∧ ∀ a, ¬Relation.TransGen s.HoldsByValue a a := by
  have h : Surface.build "map" mapDeclarations = .ok _ := rfl
  obtain ⟨hresolved, -, hacyclic, -⟩ := types_of_build h
  exact ⟨_, h, rfl, rfl, rfl, hresolved, hacyclic⟩

end Surface
end NativeInterface
