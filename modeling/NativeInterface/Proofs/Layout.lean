import NativeInterface.Proofs.Spelling

/-!
# From lexemes to tokens

The kinds of the tokens depend on the readings alone: blanks fall away, and a line feed is a line
end where a declaration can end.
-/

namespace NativeInterface
open Token (Kind)

namespace Lexeme

namespace Reading

/-- A line feed, or a token without a fault. -/
def isSound : Reading → Bool
  | lineFeed | token _ none => true
  | _ => false

/-- The number of open brackets behind a reading. -/
def depthAfter (depth : Nat) : Reading → Nat
  | token k _ => k.depthAfter depth
  | _ => depth

end Reading

/-- The readings of lexemes, blanks left out. -/
def skim (ls : List Lexeme) : List Reading := (ls.map (·.reading)).filter (· ≠ .blank)

theorem skim_cons_blank {l : Lexeme} {ls : List Lexeme} (h : l.reading = .blank) :
    skim (l :: ls) = skim ls := by
  simp [skim, h]

theorem skim_cons {l : Lexeme} {ls : List Lexeme} {r : Reading} (h : l.reading = r)
    (hr : r ≠ .blank) : skim (l :: ls) = r :: skim ls := by
  simp [skim, h, hr]

end Lexeme

namespace Lexed

theorem endsLine_of_mem_atEnd {p : Position} {t : Token} (h : t ∈ (atEnd p).tokens) :
    t.kind.endsLine := by
  rw [List.mem_singleton.mp h]
  rfl

/-- Where no fault is found, a token is a line end or was read without a fault. -/
theorem mem_layout {ls : List Lexeme} {s : State} (h : (layout ls s).faults = [])
    {t : Token} (ht : t ∈ (layout ls s).tokens) :
    t.kind.endsLine ∨ .token t.kind none ∈ ls.map (·.reading) := by
  fun_induction layout ls s with
  | case1 | case2 | case3 => exact .inl (endsLine_of_mem_atEnd ht)
  | case4 l ls s _ stop _ ih | case5 l ls s _ stop _ _ ih =>
    exact (ih h ht).imp_right (List.mem_cons_of_mem _)
  | case6 l ls s _ stop span _ _ ih =>
    rcases List.mem_cons.mp ht with rfl | ht
    · exact .inl rfl
    · exact (ih h ht).imp_right (List.mem_cons_of_mem _)
  | case7 l ls s _ stop span kind fault hl found ih =>
    obtain ⟨hfound, h⟩ := List.append_eq_nil_iff.mp h
    rcases List.mem_cons.mp ht with rfl | ht
    · have hnone : fault = none := by simpa [found] using hfound
      rw [hnone] at hl
      exact .inr (List.mem_cons.mpr (.inl hl.symm))
    · exact (ih h ht).imp_right (List.mem_cons_of_mem _)
  | case8 l ls s _ stop span _ ih | case9 l ls s _ c _ found ih =>
    exact (ih (List.append_eq_nil_iff.mp h).2 ht).imp_right (List.mem_cons_of_mem _)

/-! ## Kinds by readings -/

/-- The kinds that readings without faults leave, with so many brackets open and behind such a
token. -/
def laid (depth : Nat) (last : Option Kind) : List Lexeme.Reading → List Kind
  | [] => []
  | .lineFeed :: rs =>
    if State.joinsLines { depth, last } then laid depth last rs
    else .newline :: laid depth (some .newline) rs
  | .token k _ :: rs => k :: laid (k.depthAfter depth) (some k) rs
  | _ :: rs => laid depth last rs

theorem layout_of_isSound {ls : List Lexeme} {s : State} (hsound : ∀ r ∈ Lexeme.skim ls, r.isSound)
    (hbudget : s.budget ≠ 0)
    (hdepth : (Lexeme.skim ls).foldl Lexeme.Reading.depthAfter s.depth = 0) :
    (layout ls s).faults = [] ∧
      (layout ls s).tokens.map (·.kind) = laid s.depth s.last (Lexeme.skim ls) ++ [Kind.eof] := by
  fun_induction layout ls s with
  | case1 => exact ⟨rfl, rfl⟩
  | case2 s hstop => exact absurd (.inr hdepth) hstop
  | case3 l ls s hstop => exact absurd hstop hbudget
  | case4 l ls s _ stop hl ih =>
    rw [Lexeme.skim_cons_blank hl] at hsound hdepth ⊢
    exact ih hsound hbudget hdepth
  | case5 l ls s _ stop hl hjoins ih =>
    rw [Lexeme.skim_cons hl nofun] at hsound hdepth ⊢
    rw [List.forall_mem_cons] at hsound
    have hjoins : State.joinsLines { depth := s.depth, last := s.last } := hjoins
    rw [laid, if_pos hjoins]
    exact ih hsound.2 hbudget hdepth
  | case6 l ls s _ stop span hl hjoins ih =>
    rw [Lexeme.skim_cons hl nofun] at hsound hdepth ⊢
    rw [List.forall_mem_cons] at hsound
    have hjoins : ¬State.joinsLines { depth := s.depth, last := s.last } := hjoins
    obtain ⟨hfaults, hkinds⟩ := ih hsound.2 hbudget hdepth
    rw [laid, if_neg hjoins, List.cons_append, ← hkinds]
    exact ⟨hfaults, rfl⟩
  | case7 l ls s _ stop span kind fault hl found ih =>
    rw [Lexeme.skim_cons hl nofun] at hsound hdepth ⊢
    rw [List.forall_mem_cons] at hsound
    have hfault : fault = none := by
      cases fault with
      | none => rfl
      | some cause => cases hsound.1
    subst hfault
    obtain ⟨hfaults, hkinds⟩ := ih hsound.2 hbudget hdepth
    rw [laid, List.cons_append, ← hkinds]
    exact ⟨hfaults, rfl⟩
  | case8 l ls s _ stop span hl ih | case9 l ls s _ c hl found ih =>
    rw [Lexeme.skim_cons hl nofun] at hsound
    cases hsound _ List.mem_cons_self

/-- Tokens on one line stay as they are. -/
theorem laid_tokens (depth : Nat) (last : Option Kind) (ks : List Kind)
    (rs : List Lexeme.Reading) :
    laid depth last (ks.map (Lexeme.Reading.token · none) ++ rs) =
      ks ++ laid (ks.foldl Kind.depthAfter depth) (ks.getLast?.or last) rs := by
  induction ks generalizing depth last with
  | nil => rfl
  | cons k ks ih =>
    have hlast : ks.getLast?.or (some k) = (k :: ks).getLast?.or last := by
      rw [List.getLast?_cons]
      cases ks.getLast? <;> rfl
    rw [List.map_cons, List.cons_append, laid, ih, hlast]
    rfl

end Lexed

/-- The tokens of a text without faults are spelled as their kinds are, line ends apart. -/
theorem spelled_of_lex {text : String} (h : (lex text).faults = [])
    {t : Token} (ht : t ∈ (lex text).tokens) (hplain : t.kind.isPlain) :
    t.kind.endsLine ∨ t.kind.Spelled := by
  refine (Lexed.mem_layout h ht).imp_right fun hread => ?_
  obtain ⟨l, hl, hread⟩ := List.mem_map.mp hread
  obtain ⟨c, cs, hscan⟩ := Lexeme.mem_all hl
  exact Lexeme.spelled_of_scan (hscan.symm.trans hread) hplain

end NativeInterface
