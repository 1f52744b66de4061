import NativeInterface.Proofs.Boundaries

/-!
# Texts without faults

Reading a text without faults takes steps of four kinds: over a blank or a comment, over a line feed
that ends nothing, over a line feed that ends a declaration, and over a token. `Lexed.FaultFree`
says what each of them finds, and the tokens of a text without faults are those that such steps find
(`exists_faultFree`).
-/

namespace NativeInterface
open Token (Kind)

namespace Lexeme

/-- The lexemes of a text, each of them scanned in front of the text behind it. -/
inductive Cut : List Char → List Lexeme → Prop
  | nil : Cut [] []
  | cons {c : Char} {tail rest : List Char} {r : Reading} {ls : List Lexeme}
    (hscan : scan c (tail ++ rest) = (r, tail)) (hrest : Cut rest ls) :
    Cut (c :: (tail ++ rest)) (⟨c :: tail, r⟩ :: ls)

theorem cut_all (cs : List Char) : Cut cs (all cs) := by
  fun_induction all cs with
  | case1 => exact .nil
  | case2 c cs found ih =>
    have hsplit : found.2 ++ cs.drop found.2.length = cs :=
      List.prefix_iff_eq_append.mp (scan_isPrefix c cs)
    have hscan : scan c (found.2 ++ cs.drop found.2.length) = (found.1, found.2) := by
      rw [hsplit]
    have hcut := Cut.cons hscan ih
    rwa [hsplit] at hcut

end Lexeme

namespace Lexed

/-- A token with its text and with the text in front of it. -/
structure Piece where
  before : List Char
  text : List Char
  kind : Kind

namespace Piece

/-- The text up to the end of a piece. -/
def through (p : Piece) : List Char := p.before ++ p.text

def token (p : Piece) : Token :=
  ⟨p.kind, .between (Position.start.after p.before) (Position.start.after p.through)⟩

end Piece

/-- The pieces found in the text ahead when no fault is met, behind the text `before`, with so many
brackets open and such a token read last. -/
inductive FaultFree : List Char → Nat → Option Kind → List Char → List Piece → Prop
  | done {before : List Char} {last : Option Kind} : FaultFree before 0 last [] []
  | blank {before tail rest : List Char} {depth : Nat} {last : Option Kind} {c : Char}
    {ps : List Piece} (hscan : Lexeme.scan c (tail ++ rest) = (.blank, tail))
    (hrest : FaultFree (before ++ c :: tail) depth last rest ps) :
    FaultFree before depth last (c :: (tail ++ rest)) ps
  | join {before rest : List Char} {depth : Nat} {last : Option Kind} {ps : List Piece}
    (hjoins : State.joinsLines { depth, last })
    (hrest : FaultFree (before ++ ['\n']) depth last rest ps) :
    FaultFree before depth last ('\n' :: rest) ps
  | lineEnd {before rest : List Char} {depth : Nat} {last : Option Kind} {ps : List Piece}
    (hjoins : ¬State.joinsLines { depth, last })
    (hrest : FaultFree (before ++ ['\n']) depth (some .newline) rest ps) :
    FaultFree before depth last ('\n' :: rest) (⟨before, ['\n'], .newline⟩ :: ps)
  | token {before tail rest : List Char} {depth : Nat} {last : Option Kind} {c : Char} {k : Kind}
    {ps : List Piece} (hscan : Lexeme.scan c (tail ++ rest) = (.token k none, tail))
    (hrest : FaultFree (before ++ c :: tail) (k.depthAfter depth) (some k) rest ps) :
    FaultFree before depth last (c :: (tail ++ rest)) (⟨before, c :: tail, k⟩ :: ps)

/-- The end of the file behind a text. -/
def eofBehind (text : List Char) : Token :=
  ⟨.eof, .point (Position.start.after text).line (Position.start.after text).column⟩

/-- The tokens of pieces, and the end of the file behind the text. -/
def tokensOf (ps : List Piece) (text : List Char) : List Token :=
  ps.map (·.token) ++ [eofBehind text]

theorem tokensOf_cons (p : Piece) (ps : List Piece) (text : List Char) :
    tokensOf (p :: ps) text = p.token :: tokensOf ps text :=
  rfl

theorem strayFaults_ne_nil {s : State} (h : s.budget ≠ 0) (c : Char) :
    (strayFaults s.position c).take s.budget ≠ [] := by
  intro hnil
  have hlength := congrArg List.length hnil
  have hsize := c.utf8Size_pos
  rw [List.length_take, length_strayFaults, List.length_nil] at hlength
  omega

/-- Where laying out the lexemes of a text reports nothing, reading takes the steps of
`FaultFree`. -/
theorem exists_faultFree_of_layout {cs before : List Char} {ls : List Lexeme} {s : State}
    (hcut : Lexeme.Cut cs ls) (hbudget : s.budget ≠ 0)
    (hpos : s.position = Position.start.after before) (h : (layout ls s).faults = []) :
    ∃ ps, FaultFree before s.depth s.last cs ps ∧
      (layout ls s).tokens = tokensOf ps (before ++ cs) := by
  induction hcut generalizing before s with
  | nil =>
    rw [layout] at h ⊢
    by_cases hdepth : s.depth = 0
    · rw [if_pos (.inr hdepth), hpos]
      refine ⟨[], hdepth ▸ .done, ?_⟩
      rw [List.append_nil]
      rfl
    · rw [if_neg (not_or.mpr ⟨hbudget, hdepth⟩)] at h
      cases h
  | @cons c tail rest r ls hscan _ ih =>
    let next := Position.start.after (before ++ c :: tail)
    have hstop : s.position.after (c :: tail) = next := by
      rw [hpos, ← Position.after_append]
    have htext : before ++ c :: (tail ++ rest) = before ++ c :: tail ++ rest := by
      rw [List.append_assoc, List.cons_append]
    rw [layout, if_neg hbudget] at h ⊢
    dsimp only at h ⊢
    rw [hstop] at h ⊢
    rw [htext]
    cases r with
    | blank =>
      dsimp only at h ⊢
      obtain ⟨ps, hps, htokens⟩ := ih (s := { s with position := next }) hbudget rfl h
      exact ⟨ps, .blank hscan hps, htokens⟩
    | lineFeed =>
      obtain ⟨rfl, rfl⟩ := List.cons.inj (Lexeme.text_of_lineFeed hscan)
      dsimp only at h ⊢
      by_cases hjoins : s.joinsLines
      · rw [if_pos hjoins] at h ⊢
        obtain ⟨ps, hps, htokens⟩ := ih (s := { s with position := next }) hbudget rfl h
        exact ⟨ps, .join hjoins hps, htokens⟩
      · rw [if_neg hjoins] at h ⊢
        obtain ⟨ps, hps, htokens⟩ :=
          ih (s := { s with position := next, last := some .newline }) hbudget rfl h
        refine ⟨_, .lineEnd hjoins hps, ?_⟩
        rw [tokensOf_cons, ← htokens, cons, hpos]
        rfl
    | token k fault =>
      obtain ⟨hfault, h⟩ := List.append_eq_nil_iff.mp h
      obtain rfl : fault = none := by simpa using hfault
      obtain ⟨ps, hps, htokens⟩ :=
        ih (s := ⟨next, k.depthAfter s.depth, some k, s.budget⟩) hbudget rfl h
      refine ⟨_, .token hscan hps, ?_⟩
      rw [tokensOf_cons, ← htokens, hpos]
      rfl
    | loneColon => cases h
    | stray d => exact absurd (List.append_eq_nil_iff.mp h).1 (strayFaults_ne_nil hbudget d)

/-! ## Where pieces stand -/

/-- A piece is a line feed that ends a line, or a token that is scanned in front of `rest`. -/
inductive Piece.FoundBefore (p : Piece) (rest : List Char) : Prop
  | lineEnd (hkind : p.kind = .newline) (htext : p.text = ['\n'])
  | token {c : Char} {tail : List Char} (htext : p.text = c :: tail)
    (hscan : Lexeme.scan c (tail ++ rest) = (.token p.kind none, tail))

/-- A piece stands in the text `ahead`, which has the text `before` in front of it. -/
def Piece.FoundIn (p : Piece) (before ahead : List Char) : Prop :=
  ∃ front rest, p.before = before ++ front ∧ ahead = front ++ p.text ++ rest ∧ p.FoundBefore rest

theorem Piece.FoundIn.behind {p : Piece} {before text rest : List Char}
    (h : p.FoundIn (before ++ text) rest) : p.FoundIn before (text ++ rest) := by
  obtain ⟨front, rest, hbefore, rfl, hfound⟩ := h
  refine ⟨text ++ front, rest, ?_, ?_, hfound⟩
  · rw [hbefore, List.append_assoc]
  · simp only [List.append_assoc]

section
variable {before ahead : List Char} {depth : Nat} {last : Option Kind} {ps : List Piece}

theorem FaultFree.found (h : FaultFree before depth last ahead ps) {p : Piece} (hp : p ∈ ps) :
    p.FoundIn before ahead := by
  induction h with
  | done => cases hp
  | blank _ _ ih | join _ _ ih => exact (ih hp).behind
  | @lineEnd _ rest _ _ _ _ _ ih =>
    rcases List.mem_cons.mp hp with rfl | hp
    · exact ⟨[], rest, (List.append_nil _).symm, rfl, .lineEnd rfl rfl⟩
    · exact (ih hp).behind
  | @token _ _ rest _ _ _ _ _ hscan _ ih =>
    rcases List.mem_cons.mp hp with rfl | hp
    · exact ⟨[], rest, (List.append_nil _).symm, rfl, .token rfl hscan⟩
    · exact (ih hp).behind

theorem FaultFree.isPrefix (h : FaultFree before depth last ahead ps) {p : Piece} (hp : p ∈ ps) :
    before <+: p.before := by
  obtain ⟨front, _, hbefore, -⟩ := h.found hp
  exact ⟨front, hbefore.symm⟩

theorem FaultFree.pairwise (h : FaultFree before depth last ahead ps) :
    ps.Pairwise fun p q => p.through <+: q.before := by
  induction h with
  | done => exact .nil
  | blank _ _ ih | join _ _ ih => exact ih
  | lineEnd _ hrest ih | token _ hrest ih =>
    exact List.pairwise_cons.mpr ⟨fun _ hq => hrest.isPrefix hq, ih⟩

end

end Lexed

/-- The tokens of a text without faults are the pieces that reading it finds, and the end of the
file. -/
theorem exists_faultFree {text : String} (h : (lex text).faults = []) :
    ∃ ps, Lexed.FaultFree [] 0 none text.toList ps ∧
      (lex text).tokens = Lexed.tokensOf ps text.toList :=
  Lexed.exists_faultFree_of_layout (Lexeme.cut_all text.toList) (by decide) rfl h

end NativeInterface
