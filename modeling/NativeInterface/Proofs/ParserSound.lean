import NativeInterface.Proofs.Grammar
import NativeInterface.Proofs.Outcome

/-!
# What the parser reads derives from the grammar

What a reader consumes are tokens of some kinds (`Reads`), and what it finds derives from these.
Each proof follows the recursion of its reader. A reader of items takes the reader of expressions as
a parameter, which is sound up to a number of levels (`Sound`).
-/

namespace NativeInterface.Parser
open Token (Kind)
open Grammar

/-! ## Reading tokens -/

/-- The tokens `ahead` are tokens of the kinds `ks` with `rest` behind them. -/
def Reads (ahead : List Token) (ks : List Kind) (rest : List Token) : Prop :=
  ∃ front, ahead = front ++ rest ∧ front.map (·.kind) = ks

section
variable {ahead middle rest : List Token} {k : Kind} {ks ls : List Kind}

theorem reads_nil : Reads ahead [] rest ↔ ahead = rest := by
  constructor
  · rintro ⟨front, rfl, hfront⟩
    rw [List.map_eq_nil_iff.mp hfront, List.nil_append]
  · rintro rfl
    exact ⟨[], rfl, rfl⟩

theorem reads_cons :
    Reads ahead (k :: ks) rest ↔ ∃ span tail, ahead = ⟨k, span⟩ :: tail ∧ Reads tail ks rest := by
  constructor
  · rintro ⟨front, rfl, hfront⟩
    obtain ⟨t, front, rfl, rfl, rfl⟩ := List.map_eq_cons_iff.mp hfront
    exact ⟨t.span, front ++ rest, rfl, front, rfl, rfl⟩
  · rintro ⟨span, _, rfl, front, rfl, rfl⟩
    exact ⟨⟨k, span⟩ :: front, rfl, rfl⟩

theorem reads_append :
    Reads ahead (ks ++ ls) rest ↔ ∃ middle, Reads ahead ks middle ∧ Reads middle ls rest := by
  constructor
  · rintro ⟨front, rfl, hfront⟩
    obtain ⟨first, second, rfl, rfl, rfl⟩ := List.map_eq_append_iff.mp hfront
    exact ⟨second ++ rest, ⟨first, List.append_assoc .., rfl⟩, second, rfl, rfl⟩
  · rintro ⟨_, ⟨first, rfl, rfl⟩, second, rfl, rfl⟩
    exact ⟨first ++ second, (List.append_assoc ..).symm, List.map_append ..⟩

theorem Reads.sublist {ahead rest : List Token} {ks : List Kind} (h : Reads ahead ks rest) :
    ks.Sublist (ahead.map (·.kind)) := by
  obtain ⟨front, rfl, rfl⟩ := h
  exact (List.sublist_append_left ..).map _

theorem Reads.suffix {ahead rest : List Token} {ks : List Kind} (h : Reads ahead ks rest) :
    rest <:+ ahead :=
  h.imp fun _ hfront => hfront.1.symm

theorem Reads.append (h : Reads ahead ks middle) (h' : Reads middle ls rest) :
    Reads ahead (ks ++ ls) rest :=
  reads_append.mpr ⟨middle, h, h'⟩

end

namespace Cursor
variable {c : Cursor} {k : Kind} {ks : List Kind} {rest : List Token}

theorem ahead_of_next {t : Token} {d : c.Later} (h : c.next = some (t, d)) :
    c.ahead = t :: d.val.ahead := by
  unfold next at h
  split at h
  · rename_i hahead
    cases h
    exact hahead
  · cases h

theorem reads_of_next {t : Token} {d : c.Later} (h : c.next = some (t, d)) :
    Reads c.ahead [t.kind] d.val.ahead :=
  reads_cons.mpr ⟨t.span, _, ahead_of_next h, reads_nil.mpr rfl⟩

theorem exists_next (h : Reads c.ahead (k :: ks) rest) :
    ∃ span d, c.next = some (⟨k, span⟩, d) ∧ Reads d.val.ahead ks rest := by
  obtain ⟨before, ahead⟩ := c
  obtain ⟨span, tail, rfl, htail⟩ := reads_cons.mp h
  exact ⟨span, _, rfl, htail⟩

theorem kind_of_reads (h : Reads c.ahead (k :: ks) rest) : c.kind = k := by
  obtain ⟨span, tail, hahead, -⟩ := reads_cons.mp h
  unfold kind
  rw [hahead]

theorem reads_of_accept {d : c.Later} (h : c.accept k = some d) :
    Reads c.ahead [k] d.val.ahead := by
  unfold accept at h
  split at h
  · rename_i t d' hnext
    split at h
    · rename_i hk
      cases h
      refine reads_cons.mpr ⟨t.span, _, ?_, reads_nil.mpr rfl⟩
      rw [← hk]
      exact ahead_of_next hnext
    · cases h
  · cases h

theorem exists_accept (h : Reads c.ahead (k :: ks) rest) :
    ∃ d, c.accept k = some d ∧ Reads d.val.ahead ks rest := by
  obtain ⟨span, d, hnext, hd⟩ := exists_next h
  refine ⟨d, ?_, hd⟩
  unfold accept
  rw [hnext]
  exact if_pos rfl

theorem accept_eq_none (h : c.kind ≠ k) : c.accept k = none := by
  unfold accept
  split
  · rename_i t d hnext
    rw [if_neg]
    rintro rfl
    apply h
    unfold kind
    rw [ahead_of_next hnext]
  · rfl

theorem reads_of_expect {d : c.Later} (h : expect k c = .ok d) : Reads c.ahead [k] d.val.ahead := by
  unfold expect at h
  split at h
  · rename_i haccept
    cases h
    exact reads_of_accept haccept
  · cases h

theorem exists_expect (h : Reads c.ahead (k :: ks) rest) :
    ∃ d, expect k c = .ok d ∧ Reads d.val.ahead ks rest := by
  obtain ⟨d, haccept, hd⟩ := exists_accept h
  refine ⟨d, ?_, hd⟩
  unfold expect
  rw [haccept]

end Cursor

/-! ## What is read derives from the grammar -/

theorem dottedName_sound {c : Cursor} {parts : List String} {d : c.Later}
    (h : dottedName c = .ok (parts, d)) :
    ∃ ks, Reads c.ahead ks d.val.ahead ∧ IsName ks parts := by
  fun_induction dottedName c generalizing parts with
  | case1 c part span d' hnext dotSpan e hdot next hsegment ih =>
    obtain ⟨⟨tail, f⟩, hread, h⟩ := Outcome.bind_eq_ok.mp h
    cases h
    obtain ⟨ks, hks, hname⟩ := ih hread
    have hfront := (Cursor.reads_of_next hnext).append (Cursor.reads_of_next hdot)
    exact ⟨_, hfront.append hks, .cons hname⟩
  | case2 c part span d' hnext | case3 c part span d' hnext =>
    cases h
    exact ⟨_, Cursor.reads_of_next hnext, .one⟩
  | case4 => cases h

/-- What a reader reads is an expression of at most `n` levels. -/
def Sound (read : Reader Expr) (n : Nat) : Prop :=
  ∀ {c e d}, read c = .ok (e, d) →
    ∃ ks, Reads c.ahead ks d.val.ahead ∧ IsExpr false ks e ∧ e.levels ≤ n

section
variable {read : Reader Expr} {n : Nat} (hread : Sound read n) {c : Cursor} {close : Kind}
  {e : Expr}
include hread

theorem pairs_sound {found : List (Ident × Expr)} {d : c.Later}
    (h : pairs read close c = .ok (found, d)) :
    ∃ ks, Reads c.ahead ks d.val.ahead ∧ IsPairs false ks found ∧
      Expr.levelsOfPairs found ≤ n := by
  fun_induction pairs read close c generalizing found with
  | case1 c name span d' hnext ih =>
    obtain ⟨⟨value, e⟩, hvalue, h⟩ := Outcome.bind_eq_ok.mp h
    obtain ⟨ks, hks, hexpr, hlevels⟩ := hread hvalue
    have hfirst := (Cursor.reads_of_next hnext).append hks
    have one : ∃ ks, Reads c.ahead ks e.val.ahead ∧
        IsPairs false ks [(⟨name, span⟩, value)] ∧
        Expr.levelsOfPairs [(⟨name, span⟩, value)] ≤ n :=
      ⟨_, hfirst, .one hexpr, by simpa [Expr.levelsOfPairs] using hlevels⟩
    simp only at h
    split at h
    · cases h
      exact one
    · split at h
      · rename_i f hcomma
        obtain ⟨⟨rest, g⟩, hrest, h⟩ := Outcome.bind_eq_ok.mp h
        cases h
        obtain ⟨ls, hls, hpairs, hlevels'⟩ := ih e f hrest
        refine ⟨_, hfirst.append ((Cursor.reads_of_accept hcomma).append hls), ?_, ?_⟩
        · exact .cons hexpr hpairs
        · exact Nat.max_le.mpr ⟨hlevels, hlevels'⟩
      · cases h
        exact one
  | case2 => cases h

theorem keywords_sound {d : c.Later} (h : keywords read close c = .ok (e, d)) :
    ∃ ks found span, Reads c.ahead ks d.val.ahead ∧ IsPairs false ks found ∧
      e = .keyword found span ∧ e.levels ≤ n := by
  obtain ⟨⟨found, d'⟩, hfound, h⟩ := Outcome.bind_eq_ok.mp h
  cases h
  obtain ⟨ks, hks, hpairs, hlevels⟩ := pairs_sound hread hfound
  exact ⟨ks, found, _, hks, hpairs, rfl, hlevels⟩

theorem items_sound {found : List Expr} {d : c.Later} (h : items read close c = .ok (found, d)) :
    ∃ ks, Reads c.ahead (ks ++ [close]) d.val.ahead ∧ IsItems false ks found ∧
      Expr.levelsOfAll found ≤ n := by
  fun_induction items read close c generalizing found with
  | case1 c d' hclose =>
    cases h
    exact ⟨[], Cursor.reads_of_accept hclose, .none, Nat.zero_le n⟩
  | case2 c _ name _ =>
    obtain ⟨⟨e, d'⟩, he, h⟩ := Outcome.bind_eq_ok.mp h
    obtain ⟨f, hf, h⟩ := Outcome.bind_eq_ok.mp h
    cases h
    obtain ⟨ks, pairs, span, hks, hpairs, rfl, hlevels⟩ := keywords_sound hread he
    refine ⟨ks, hks.append (Cursor.reads_of_expect hf), .some (.pairs hpairs), ?_⟩
    exact Nat.max_le.mpr ⟨hlevels, Nat.zero_le n⟩
  | case3 c _ _ ih =>
    obtain ⟨⟨e, d'⟩, he, h⟩ := Outcome.bind_eq_ok.mp h
    obtain ⟨ks, hks, hexpr, hlevels⟩ := hread he
    simp only at h
    split at h
    · rename_i f hcomma
      obtain ⟨⟨es, g⟩, hes, h⟩ := Outcome.bind_eq_ok.mp h
      cases h
      obtain ⟨ls, hls, hitems, hlevels'⟩ := ih d' f hes
      refine ⟨ks ++ .comma :: ls, ?_, hitems.cons hexpr, Nat.max_le.mpr ⟨hlevels, hlevels'⟩⟩
      rw [List.append_assoc]
      exact hks.append ((Cursor.reads_of_accept hcomma).append hls)
    · obtain ⟨f, hf, h⟩ := Outcome.bind_eq_ok.mp h
      cases h
      refine ⟨ks, hks.append (Cursor.reads_of_expect hf), .some (.exprs (.one hexpr)), ?_⟩
      exact Nat.max_le.mpr ⟨hlevels, Nat.zero_le n⟩

theorem entries_sound {found : List (Ident × Expr)} {d : c.Later}
    (h : entries read c = .ok (found, d)) :
    ∃ ks, Reads c.ahead (ks ++ [Kind.rbrace]) d.val.ahead ∧ IsEntries false ks found ∧
      Expr.levelsOfPairs found ≤ n := by
  unfold entries at h
  split at h
  · rename_i hclose
    cases h
    exact ⟨[], Cursor.reads_of_accept hclose, .none, Nat.zero_le n⟩
  · obtain ⟨⟨found', d'⟩, hfound, h⟩ := Outcome.bind_eq_ok.mp h
    obtain ⟨f, hf, h⟩ := Outcome.bind_eq_ok.mp h
    cases h
    obtain ⟨ks, hks, hpairs, hlevels⟩ := pairs_sound hread hfound
    exact ⟨ks, hks.append (Cursor.reads_of_expect hf), .some hpairs, hlevels⟩

theorem primary_sound {d : c.Later} (h : primary read c = .ok (e, d)) :
    ∃ ks, Reads c.ahead ks d.val.ahead ∧ IsPrimary false ks e ∧ e.levels ≤ n + 1 := by
  unfold primary at h
  split at h
  · cases h
  · rename_i t d' hnext
    have hfirst := Cursor.reads_of_next hnext
    split at h
    · rename_i name hkind
      rw [hkind] at hfirst
      split at h
      · rename_i f hparen
        obtain ⟨⟨args, g⟩, hargs, h⟩ := Outcome.bind_eq_ok.mp h
        cases h
        obtain ⟨ks, hks, hitems, hlevels⟩ := items_sound hread hargs
        exact ⟨_, hfirst.append ((Cursor.reads_of_accept hparen).append hks), .call hitems,
          Nat.succ_le_succ hlevels⟩
      · cases h
        exact ⟨_, hfirst, .ident, Nat.le_add_left ..⟩
    · obtain ⟨⟨parts, f⟩, hparts, h⟩ := Outcome.bind_eq_ok.mp h
      cases h
      obtain ⟨ks, hks, hname⟩ := dottedName_sound hparts
      exact ⟨ks, hks, .dotted hname, Nat.le_add_left ..⟩
    · rename_i name hkind
      rw [hkind] at hfirst
      cases h
      exact ⟨_, hfirst, .atom, Nat.le_add_left ..⟩
    · rename_i value hkind
      rw [hkind] at hfirst
      cases h
      exact ⟨_, hfirst, .int, Nat.le_add_left ..⟩
    · rename_i value hkind
      rw [hkind] at hfirst
      cases h
      exact ⟨_, hfirst, .str, Nat.le_add_left ..⟩
    · rename_i hkind
      rw [hkind] at hfirst
      obtain ⟨⟨found, f⟩, hfound, h⟩ := Outcome.bind_eq_ok.mp h
      cases h
      obtain ⟨ks, hks, hitems, hlevels⟩ := items_sound hread hfound
      exact ⟨_, hfirst.append hks, .list hitems, Nat.succ_le_succ hlevels⟩
    · rename_i hkind
      rw [hkind] at hfirst
      obtain ⟨⟨found, f⟩, hfound, h⟩ := Outcome.bind_eq_ok.mp h
      cases h
      obtain ⟨ks, hks, hitems, hlevels⟩ := items_sound hread hfound
      exact ⟨_, hfirst.append hks, .tuple hitems, Nat.succ_le_succ hlevels⟩
    · rename_i hkind
      rw [hkind] at hfirst
      obtain ⟨⟨name, f⟩, hname, h⟩ := Outcome.bind_eq_ok.mp h
      obtain ⟨g, hbrace, h⟩ := Outcome.bind_eq_ok.mp h
      obtain ⟨⟨found, k⟩, hfound, h⟩ := Outcome.bind_eq_ok.mp h
      cases h
      obtain ⟨ks, hks, hname⟩ := dottedName_sound hname
      obtain ⟨ls, hls, hentries, hlevels⟩ := entries_sound hread hfound
      exact ⟨_, hfirst.append (hks.append ((Cursor.reads_of_expect hbrace).append hls)),
        .map hname hentries, Nat.succ_le_succ hlevels⟩
    · cases h
    · cases h
    · cases h

theorem alternatives_sound {d : c.Later} (h : alternatives read c = .ok (e, d)) :
    ∃ ks, Reads c.ahead ks d.val.ahead ∧ IsAlt false ks e ∧ e.levels ≤ n + 1 := by
  fun_induction alternatives read c generalizing e with
  | case1 c ih =>
    obtain ⟨⟨lhs, d'⟩, hlhs, h⟩ := Outcome.bind_eq_ok.mp h
    obtain ⟨ks, hks, hprimary, hlevels⟩ := primary_sound hread hlhs
    simp only at h
    split at h
    · rename_i f hpipe
      obtain ⟨⟨rhs, g⟩, hrhs, h⟩ := Outcome.bind_eq_ok.mp h
      cases h
      obtain ⟨ls, hls, halt, hlevels'⟩ := ih d' f hrhs
      exact ⟨_, hks.append ((Cursor.reads_of_accept hpipe).append hls), .alt hprimary halt,
        Nat.max_le.mpr ⟨hlevels, hlevels'⟩⟩
    · cases h
      exact ⟨ks, hks, .plain hprimary, hlevels⟩

end

theorem expr_sound (n : Nat) : Sound (expr n) n := by
  induction n with
  | zero =>
    intro c e d h
    cases h
  | succ n ih =>
    intro c e d h
    obtain ⟨⟨lhs, d'⟩, hlhs, h⟩ := Outcome.bind_eq_ok.mp h
    obtain ⟨ks, hks, halt, hlevels⟩ := alternatives_sound ih hlhs
    simp only at h
    split at h
    · rename_i f hcolons
      obtain ⟨⟨rhs, g⟩, hrhs, h⟩ := Outcome.bind_eq_ok.mp h
      cases h
      obtain ⟨ls, hls, hexpr, hlevels'⟩ := ih hrhs
      exact ⟨_, hks.append ((Cursor.reads_of_accept hcolons).append hls), .typed halt hexpr,
        Nat.max_le.mpr ⟨hlevels, Nat.succ_le_succ hlevels'⟩⟩
    · cases h
      exact ⟨ks, hks, .plain halt, hlevels⟩

/-- A payload that is not empty derives from the grammar. -/
theorem payload_sound {c : Cursor} {found : List Expr}
    {d : { d : Cursor // d.ahead.length ≤ c.ahead.length }} (h : payload c = .ok (found, d)) :
    ∃ ks, Reads c.ahead ks d.val.ahead ∧ IsItems false ks found ∧
      Expr.levelsOfAll found ≤ maxNesting := by
  fun_induction payload c generalizing found with
  | case1 c _ =>
    cases h
    exact ⟨[], reads_nil.mpr rfl, .none, Nat.zero_le _⟩
  | case2 c _ name _ =>
    obtain ⟨⟨e, d'⟩, he, h⟩ := Outcome.bind_eq_ok.mp h
    cases h
    obtain ⟨ks, pairs, span, hks, hpairs, rfl, hlevels⟩ := keywords_sound (expr_sound _) he
    exact ⟨ks, hks, .some (.pairs hpairs), Nat.max_le.mpr ⟨hlevels, Nat.zero_le _⟩⟩
  | case3 c _ _ ih =>
    obtain ⟨⟨e, d'⟩, he, h⟩ := Outcome.bind_eq_ok.mp h
    obtain ⟨ks, hks, hexpr, hlevels⟩ := expr_sound _ he
    simp only at h
    split at h
    · rename_i f hcomma
      obtain ⟨⟨es, g⟩, hes, h⟩ := Outcome.bind_eq_ok.mp h
      cases h
      obtain ⟨ls, hls, hitems, hlevels'⟩ := ih d' f hes
      exact ⟨_, hks.append ((Cursor.reads_of_accept hcomma).append hls), hitems.cons hexpr,
        Nat.max_le.mpr ⟨hlevels, hlevels'⟩⟩
    · cases h
      exact ⟨ks, hks, .some (.exprs (.one hexpr)), Nat.max_le.mpr ⟨hlevels, Nat.zero_le _⟩⟩

theorem declaration_sound {c : Cursor} {decl : Declaration} {d : c.Later}
    (h : declaration c = .ok (decl, d)) :
    ∃ ks, Reads c.ahead ks d.val.ahead ∧ IsDeclaration false ks decl ∧
      decl.levels ≤ maxNesting := by
  unfold declaration at h
  split at h
  · rename_i name span d' hnext
    obtain ⟨⟨found, e⟩, hfound, h⟩ := Outcome.bind_eq_ok.mp h
    cases h
    obtain ⟨ks, hks, hitems, hlevels⟩ := payload_sound hfound
    refine ⟨_, (Cursor.reads_of_next hnext).append hks, ?_, hlevels⟩
    cases hitems with
    | none => exact .bare
    | some h => exact .payload h
    | leading hloose => cases hloose
  · cases h

theorem line_sound {c : Cursor} {decl : Declaration} {d : c.Later}
    (h : line c = .ok (decl, d)) :
    ∃ ks, Reads c.ahead ks d.val.ahead ∧ IsDeclaration false ks decl ∧
      decl.levels ≤ maxNesting ∧ d.val.kind.endsLine := by
  obtain ⟨⟨decl', d'⟩, hdecl, h⟩ := Outcome.bind_eq_ok.mp h
  simp only at h
  split at h
  · rename_i hend
    cases h
    obtain ⟨ks, hks, hderives, hlevels⟩ := declaration_sound hdecl
    exact ⟨ks, hks, hderives, hlevels, hend⟩
  · cases h

end NativeInterface.Parser
