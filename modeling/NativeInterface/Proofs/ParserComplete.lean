import NativeInterface.Proofs.ParserSound

/-!
# What derives from the grammar is read

A derivation fixes which tokens belong to an expression; the parser finds the same ones, since the
token behind them is one that no expression could go on with.
-/

namespace NativeInterface.Parser
open Token (Kind)
open Grammar
variable {rest : List Token} {ks : List Kind} {k : Kind} {c : Cursor}

/-! ## Lookahead -/

/-- The kind of the next token; the end of the file behind the last one. -/
def nextKind : List Token → Kind
  | [] => .eof
  | t :: _ => t.kind

@[simp] theorem nextKind_cons (t : Token) (ts : List Token) : nextKind (t :: ts) = t.kind := rfl

theorem Cursor.kind_eq (c : Cursor) : c.kind = nextKind c.ahead := by
  unfold Cursor.kind nextKind
  split <;> simp_all

theorem nextKind_of_reads {ahead rest : List Token} (h : Reads ahead (k :: ks) rest) :
    nextKind ahead = k := by
  obtain ⟨span, tail, rfl, -⟩ := reads_cons.mp h
  rfl

theorem starts_of_reads {e : Expr} (h : IsExpr false ks e) (hc : Reads c.ahead ks rest) :
    startsExpr c.kind := by
  obtain ⟨k, ls, rfl, hk⟩ := h.starts
  rwa [Cursor.kind_of_reads hc]

/-- A token of another kind is not accepted. -/
theorem Cursor.accept_eq_none_of_ahead (hc : c.ahead = rest) (hk : nextKind rest ≠ k) :
    c.accept k = none := by
  apply Cursor.accept_eq_none
  rwa [Cursor.kind_eq, hc]

theorem ne_of_test {p : Kind → Bool} {k l : Kind} (hk : p k = true) (hl : p l = false) : k ≠ l := by
  rintro rfl
  rw [hl] at hk
  cases hk

/-- The kinds that end an expression. -/
def endsExpr : Kind → Bool
  | .comma | .rparen | .rbracket | .rbrace | .newline | .eof => true
  | _ => false

/-- The kinds that end alternatives. -/
def endsAlt : Kind → Bool
  | .colonColon => true
  | k => endsExpr k

/-- The kinds that end an expression without operators. -/
def endsPrimary : Kind → Bool
  | .pipe => true
  | k => endsAlt k

theorem endsExpr_of_closes (h : k.closes) : endsExpr k := by
  cases k with
  | rparen | rbracket | rbrace => rfl
  | _ => cases h

theorem endsAlt_of_endsExpr (h : endsExpr k) : endsAlt k := by
  unfold endsAlt
  split
  · rfl
  · exact h

theorem endsPrimary_of_endsAlt (h : endsAlt k) : endsPrimary k := by
  unfold endsPrimary
  split
  · rfl
  · exact h

/-! ## Success -/

/-- A reading succeeds, leaves `rest`, and what it finds is as `P` says. -/
def Finds {α : Type} {Q : Cursor → Prop}
    (r : Except (Located ParseFault) (α × { d : Cursor // Q d })) (rest : List Token)
    (P : α → Prop) : Prop :=
  ∃ a d, r = .ok (a, d) ∧ d.val.ahead = rest ∧ P a

namespace Finds
variable {α β : Type} {Q R : Cursor → Prop} {rest middle : List Token} {P : α → Prop}

theorem ok {a : α} {d : { d : Cursor // Q d }} (hd : d.val.ahead = rest) (ha : P a) :
    Finds (.ok (a, d)) rest P :=
  ⟨a, d, rfl, hd, ha⟩

/-- Reading goes on behind what was found. -/
theorem bind {r : Except (Located ParseFault) (α × { d : Cursor // Q d })}
    {f : α × { d : Cursor // Q d } → Except (Located ParseFault) (β × { d : Cursor // R d })}
    {P' : β → Prop} (h : Finds r middle P)
    (hf : ∀ a d, d.val.ahead = middle → P a → Finds (f (a, d)) rest P') :
    Finds (r >>= f) rest P' := by
  obtain ⟨a, d, rfl, hd, ha⟩ := h
  exact hf a d hd ha

end Finds

/-! ## Names -/

theorem dottedName_complete {parts : List String} (h : IsName ks parts) (hc : Reads c.ahead ks rest)
    (hrest : nextKind rest ≠ .dot) : Finds (dottedName c) rest (· = parts) := by
  induction h generalizing c with
  | one =>
    obtain ⟨span, d, hnext, hd⟩ := Cursor.exists_next hc
    rw [reads_nil] at hd
    rw [dottedName, hnext]
    dsimp only
    split
    · rename_i dotSpan e hdot
      have hkind := nextKind_of_reads (Cursor.reads_of_next hdot)
      exact absurd (hd ▸ hkind) hrest
    · exact .ok hd rfl
  | @cons ks parts part hname ih =>
    obtain ⟨span, d, hnext, hd⟩ := Cursor.exists_next hc
    obtain ⟨dotSpan, e, hdot, he⟩ := Cursor.exists_next hd
    have hsegment : ∃ part, e.val.kind = .segment part := by
      cases hname <;> exact ⟨_, Cursor.kind_of_reads he⟩
    obtain ⟨part', hsegment⟩ := hsegment
    rw [dottedName, hnext]
    dsimp only
    rw [hdot]
    dsimp only
    rw [hsegment]
    refine (ih he).bind fun tail f hf htail => ?_
    exact .ok hf (htail ▸ rfl)

/-! ## Brackets -/

/-- A reader finds every expression of at most `n` levels, up to places. -/
def Complete (read : Reader Expr) (n : Nat) : Prop :=
  ∀ {ks e}, IsExpr false ks e → e.levels ≤ n → ∀ {c : Cursor} {rest}, Reads c.ahead ks rest →
    endsExpr (nextKind rest) → Finds (read c) rest (·.unplaced = e.unplaced)

section
variable {read : Reader Expr} {n : Nat} (hread : Complete read n) {rest : List Token}
  {ks : List Kind} {c : Cursor}
include hread

theorem pairs_complete {close : Kind} (hclose : close ≠ .comma) {ks : List Kind}
    {found : List (Ident × Expr)} (h : IsPairs false ks found)
    (hlevels : Expr.levelsOfPairs found ≤ n) {c : Cursor} {rest : List Token}
    (hc : Reads c.ahead ks rest)
    (hstop : nextKind rest = close ∨ (nextKind rest).endsLine = true)
    (hrest : endsExpr (nextKind rest)) :
    Finds (pairs read close c) rest (Expr.unplacedPairs · = Expr.unplacedPairs found) := by
  match h with
  | .one h =>
    obtain ⟨span, d, hnext, hd⟩ := Cursor.exists_next hc
    rw [pairs, hnext]
    refine (hread h (Nat.max_le.mp hlevels).1 hd hrest).bind fun value f hf hvalue => ?_
    dsimp only
    rw [if_pos (by rwa [Cursor.kind_eq, hf])]
    exact .ok hf (by simp [Expr.unplacedPairs, hvalue])
  | .cons h hpairs =>
    obtain ⟨span, d, hnext, hd⟩ := Cursor.exists_next hc
    obtain ⟨middle, hks, hcomma⟩ := reads_append.mp hd
    rw [pairs, hnext]
    refine (hread h (Nat.max_le.mp hlevels).1 hks (nextKind_of_reads hcomma ▸ rfl)).bind
      fun value f hf hvalue => ?_
    rw [← hf] at hcomma
    have hkind := Cursor.kind_of_reads hcomma
    obtain ⟨g, haccept, hg⟩ := Cursor.exists_accept hcomma
    dsimp only
    rw [if_neg (by simp [hkind, hclose.symm, Kind.endsLine]), haccept]
    have htail := pairs_complete hclose hpairs (Nat.max_le.mp hlevels).2 hg hstop hrest
    refine htail.bind fun tail k hk htail => ?_
    exact .ok hk (by simp [Expr.unplacedPairs, hvalue, htail])

theorem keywords_complete {close : Kind} (hclose : close ≠ .comma) {found : List (Ident × Expr)}
    (h : IsPairs false ks found) (hlevels : Expr.levelsOfPairs found ≤ n)
    (hc : Reads c.ahead ks rest) (hstop : nextKind rest = close ∨ (nextKind rest).endsLine = true)
    (hrest : endsExpr (nextKind rest)) :
    Finds (keywords read close c) rest (·.unplaced = .keyword (Expr.unplacedPairs found) {}) := by
  refine (pairs_complete hread hclose h hlevels hc hstop hrest).bind fun pairs d hd hpairs => ?_
  exact .ok hd (by simp [Expr.unplaced, hpairs])

theorem items_complete {close : Kind} (hclose : close.closes) {ks : List Kind}
    {found : List Expr} (h : IsItems false ks found) (hlevels : Expr.levelsOfAll found ≤ n)
    {c : Cursor} {rest : List Token} (hc : Reads c.ahead (ks ++ [close]) rest) :
    Finds (items read close c) rest (Expr.unplacedAll · = Expr.unplacedAll found) := by
  have hcomma : close ≠ .comma := fun hk => by cases hk ▸ hclose
  have hend : endsExpr close := endsExpr_of_closes hclose
  cases h with
  | none =>
    obtain ⟨d, haccept, hd⟩ := Cursor.exists_accept hc
    rw [items, haccept]
    exact .ok (reads_nil.mp hd) rfl
  | leading hloose => cases hloose
  | some h =>
    obtain ⟨middle, hks, hmiddle⟩ := reads_append.mp hc
    have hlast := nextKind_of_reads hmiddle
    rcases h.uncons with ⟨pairs, span, hpairs, rfl⟩ | ⟨ks, ls, e, es, he, hes, rfl, rfl⟩
    · obtain ⟨name, ls, rfl⟩ := hpairs.starts
      have hkind := Cursor.kind_of_reads hks
      rw [items, Cursor.accept_eq_none (by rintro rfl; rw [hkind] at hclose; cases hclose)]
      dsimp only
      rw [hkind]
      refine (keywords_complete hread hcomma hpairs (Nat.max_le.mp hlevels).1 hks (.inl hlast)
        (hlast ▸ hend)).bind fun e d hd he => ?_
      rw [← hd] at hmiddle
      obtain ⟨f, hexpect, hf⟩ := Cursor.exists_expect hmiddle
      dsimp only
      rw [hexpect]
      exact .ok (reads_nil.mp hf) (by simp [Expr.unplacedAll, Expr.unplaced, he])
    · obtain ⟨between, hexpr, hbetween⟩ := reads_append.mp hks
      have hk := starts_of_reads he hexpr
      have hnone : c.accept close = none := by
        apply Cursor.accept_eq_none
        rintro rfl
        rw [closes_of_startsExpr hk] at hclose
        cases hclose
      rw [items, hnone]
      dsimp only
      split
      · rename_i hkey
        rw [hkey] at hk
        cases hk
      cases hes with
      | none =>
        obtain rfl := reads_nil.mp hbetween
        refine (hread he (Nat.max_le.mp hlevels).1 hexpr (hlast ▸ hend)).bind fun e' d hd he' => ?_
        rw [← hd] at hmiddle
        obtain ⟨f, hexpect, hf⟩ := Cursor.exists_expect hmiddle
        dsimp only
        rw [Cursor.accept_eq_none (Cursor.kind_of_reads hmiddle ▸ hcomma)]
        dsimp only
        rw [hexpect]
        exact .ok (reads_nil.mp hf) (by simp [Expr.unplacedAll, he'])
      | comma hes =>
        refine (hread he (Nat.max_le.mp hlevels).1 hexpr (nextKind_of_reads hbetween ▸ rfl)).bind
          fun e' d hd he' => ?_
        rw [← hd] at hbetween
        obtain ⟨f, haccept, hf⟩ := Cursor.exists_accept hbetween
        dsimp only
        rw [haccept]
        refine (items_complete hclose hes (Nat.max_le.mp hlevels).2 (hf.append hmiddle)).bind
          fun es' g hg hes' => ?_
        exact .ok hg (by simp [Expr.unplacedAll, he', hes'])
termination_by c.ahead.length
decreasing_by
  have := d.2
  have := f.2
  omega

theorem entries_complete {found : List (Ident × Expr)} (h : IsEntries false ks found)
    (hlevels : Expr.levelsOfPairs found ≤ n) (hc : Reads c.ahead (ks ++ [Kind.rbrace]) rest) :
    Finds (entries read c) rest (Expr.unplacedPairs · = Expr.unplacedPairs found) := by
  unfold entries
  cases h with
  | none =>
    obtain ⟨d, haccept, hd⟩ := Cursor.exists_accept hc
    rw [haccept]
    exact .ok (reads_nil.mp hd) rfl
  | some h =>
    obtain ⟨middle, hks, hmiddle⟩ := reads_append.mp hc
    have hlast := nextKind_of_reads hmiddle
    have hkind : c.kind ≠ .rbrace := by
      obtain ⟨name, ls, rfl⟩ := h.starts
      exact Cursor.kind_of_reads hks ▸ Kind.noConfusion
    rw [Cursor.accept_eq_none hkind]
    refine (pairs_complete hread Kind.noConfusion h hlevels hks (.inl hlast) (hlast ▸ rfl)).bind
      fun pairs d hd hpairs => ?_
    rw [← hd] at hmiddle
    obtain ⟨f, hexpect, hf⟩ := Cursor.exists_expect hmiddle
    dsimp only
    rw [hexpect]
    exact .ok (reads_nil.mp hf) hpairs

theorem primary_complete {e : Expr} (h : IsPrimary false ks e) (hlevels : e.levels ≤ n + 1)
    (hc : Reads c.ahead ks rest) (hrest : endsPrimary (nextKind rest)) :
    Finds (primary read c) rest (·.unplaced = e.unplaced) := by
  unfold primary
  cases h with
  | ident =>
    obtain ⟨span, d, hnext, hd⟩ := Cursor.exists_next hc
    rw [reads_nil] at hd
    rw [hnext]
    dsimp only
    rw [Cursor.accept_eq_none_of_ahead hd (ne_of_test hrest rfl)]
    exact .ok hd rfl
  | call h =>
    obtain ⟨span, d, hnext, hd⟩ := Cursor.exists_next hc
    obtain ⟨f, hparen, hf⟩ := Cursor.exists_accept hd
    rw [hnext]
    dsimp only
    rw [hparen]
    refine (items_complete hread rfl h (Nat.le_of_succ_le_succ hlevels) hf).bind
      fun args g hg hargs => ?_
    exact .ok hg (by simp [Expr.unplaced, hargs])
  | dotted h =>
    obtain ⟨k, ls, hk⟩ : ∃ part ls, ks = .segment part :: ls := by
      cases h <;> exact ⟨_, _, rfl⟩
    obtain ⟨span, d, hnext, -⟩ := Cursor.exists_next (hk ▸ hc)
    rw [hnext]
    refine (dottedName_complete h hc (ne_of_test hrest rfl)).bind fun parts f hf hparts => ?_
    exact .ok hf (by simp [Expr.unplaced, hparts])
  | atom | int | str =>
    obtain ⟨span, d, hnext, hd⟩ := Cursor.exists_next hc
    rw [hnext]
    exact .ok (reads_nil.mp hd) rfl
  | list h | tuple h =>
    obtain ⟨span, d, hnext, hd⟩ := Cursor.exists_next hc
    rw [hnext]
    refine (items_complete hread rfl h (Nat.le_of_succ_le_succ hlevels) hd).bind
      fun items f hf hitems => ?_
    exact .ok hf (by simp [Expr.unplaced, hitems])
  | map hname hentries =>
    obtain ⟨span, d, hnext, hd⟩ := Cursor.exists_next hc
    obtain ⟨middle, hks, hmiddle⟩ := reads_append.mp hd
    rw [hnext]
    refine (dottedName_complete hname hks (nextKind_of_reads hmiddle ▸ Kind.noConfusion)).bind
      fun name f hf hname => ?_
    rw [← hf] at hmiddle
    obtain ⟨g, hbrace, hg⟩ := Cursor.exists_expect hmiddle
    dsimp only
    rw [hbrace]
    refine (entries_complete hread hentries (Nat.le_of_succ_le_succ hlevels) hg).bind
      fun entries k hk hentries => ?_
    exact .ok hk (by simp [Expr.unplaced, hname, hentries])

theorem alternatives_complete {ks : List Kind} {e : Expr} (h : IsAlt false ks e)
    (hlevels : e.levels ≤ n + 1) {c : Cursor} {rest : List Token} (hc : Reads c.ahead ks rest)
    (hrest : endsAlt (nextKind rest)) :
    Finds (alternatives read c) rest (·.unplaced = e.unplaced) := by
  rw [alternatives]
  match h with
  | .plain h =>
    refine (primary_complete hread h hlevels hc (endsPrimary_of_endsAlt hrest)).bind
      fun lhs d hd hlhs => ?_
    dsimp only
    rw [Cursor.accept_eq_none_of_ahead hd (ne_of_test hrest rfl)]
    exact .ok hd hlhs
  | .alt h halt =>
    obtain ⟨middle, hks, hmiddle⟩ := reads_append.mp hc
    refine (primary_complete hread h (Nat.max_le.mp hlevels).1 hks
      (nextKind_of_reads hmiddle ▸ rfl)).bind fun lhs d hd hlhs => ?_
    rw [← hd] at hmiddle
    obtain ⟨f, hpipe, hf⟩ := Cursor.exists_accept hmiddle
    dsimp only
    rw [hpipe]
    refine (alternatives_complete halt (Nat.max_le.mp hlevels).2 hf hrest).bind
      fun rhs g hg hrhs => ?_
    exact .ok hg (by simp [Expr.unplaced, hlhs, hrhs])

end

theorem expr_complete (n : Nat) : Complete (expr n) n := by
  induction n with
  | zero =>
    intro ks e h hlevels
    exact absurd h.levels_pos (Nat.not_lt.mpr hlevels)
  | succ n ih =>
    intro ks e h hlevels c rest hc hrest
    rw [expr]
    cases h with
    | plain h =>
      refine (alternatives_complete ih h hlevels hc (endsAlt_of_endsExpr hrest)).bind
        fun lhs d hd hlhs => ?_
      dsimp only
      rw [Cursor.accept_eq_none_of_ahead hd (ne_of_test hrest rfl)]
      exact .ok hd hlhs
    | typed h hexpr =>
      obtain ⟨middle, hks, hmiddle⟩ := reads_append.mp hc
      refine (alternatives_complete ih h (Nat.max_le.mp hlevels).1 hks
        (nextKind_of_reads hmiddle ▸ rfl)).bind fun lhs d hd hlhs => ?_
      rw [← hd] at hmiddle
      obtain ⟨f, hcolons, hf⟩ := Cursor.exists_accept hmiddle
      dsimp only
      rw [hcolons]
      refine (ih hexpr (Nat.le_of_succ_le_succ (Nat.max_le.mp hlevels).2) hf hrest).bind
        fun rhs g hg hrhs => ?_
      exact .ok hg (by simp [Expr.unplaced, hlhs, hrhs])

/-! ## Lines -/

theorem ne_of_endsLine {k l : Kind} (hk : k.endsLine = false) (hl : l.endsLine) : k ≠ l :=
  (ne_of_test hl hk).symm

theorem endsExpr_of_endsLine (h : k.endsLine) : endsExpr k := by
  cases k with
  | newline | eof => rfl
  | _ => cases h

theorem payload_complete {ks : List Kind} {found : List Expr} (h : IsItems false ks found)
    (hlevels : Expr.levelsOfAll found ≤ maxNesting) {c : Cursor} {rest : List Token}
    (hc : Reads c.ahead ks rest) (hrest : (nextKind rest).endsLine) :
    Finds (payload c) rest (Expr.unplacedAll · = Expr.unplacedAll found) := by
  have hend := endsExpr_of_endsLine hrest
  cases h with
  | none =>
    rw [reads_nil] at hc
    rw [payload, if_pos (by rwa [Cursor.kind_eq, hc])]
    exact .ok hc rfl
  | leading hloose => cases hloose
  | some h =>
    rcases h.uncons with ⟨pairs, span, hpairs, rfl⟩ | ⟨ks, ls, e, es, he, hes, rfl, rfl⟩
    · obtain ⟨name, ls, rfl⟩ := hpairs.starts
      have hkind := Cursor.kind_of_reads hc
      rw [payload, if_neg (by simp [hkind, Kind.endsLine])]
      split
      · refine (keywords_complete (expr_complete _) Kind.noConfusion hpairs
          (Nat.max_le.mp hlevels).1 hc (.inr hrest) hend).bind fun e d hd he => ?_
        exact .ok hd (by simp [Expr.unplacedAll, Expr.unplaced, he])
      · rename_i hkey
        exact absurd hkind (hkey _)
    · obtain ⟨middle, hks, hmiddle⟩ := reads_append.mp hc
      have hk := starts_of_reads he hks
      rw [payload, if_neg (by rw [endsLine_of_startsExpr hk]; exact Bool.noConfusion)]
      split
      · rename_i hkey
        rw [hkey] at hk
        cases hk
      cases hes with
      | none =>
        obtain rfl := reads_nil.mp hmiddle
        refine (expr_complete _ he (Nat.max_le.mp hlevels).1 hks hend).bind fun e' d hd he' => ?_
        dsimp only
        rw [Cursor.accept_eq_none_of_ahead hd (ne_of_test hrest rfl)]
        exact .ok hd (by simp [Expr.unplacedAll, he'])
      | comma hes =>
        refine (expr_complete _ he (Nat.max_le.mp hlevels).1 hks
          (nextKind_of_reads hmiddle ▸ rfl)).bind fun e' d hd he' => ?_
        rw [← hd] at hmiddle
        obtain ⟨f, haccept, hf⟩ := Cursor.exists_accept hmiddle
        dsimp only
        rw [haccept]
        refine (payload_complete hes (Nat.max_le.mp hlevels).2 hf hrest).bind
          fun es' g hg hes' => ?_
        exact .ok hg (by simp [Expr.unplacedAll, he', hes'])
termination_by c.ahead.length
decreasing_by
  have := d.2
  have := f.2
  omega

theorem declaration_complete {decl : Declaration} (h : IsDeclaration false ks decl)
    (hlevels : decl.levels ≤ maxNesting) (hc : Reads c.ahead ks rest)
    (hrest : (nextKind rest).endsLine) :
    Finds (declaration c) rest (·.unplaced = decl.unplaced) := by
  obtain ⟨name, place, es, span, ls, rfl, rfl, hes⟩ := h.items
  obtain ⟨kindSpan, d, hnext, hd⟩ := Cursor.exists_next hc
  rw [declaration, hnext]
  refine (payload_complete hes hlevels hd hrest).bind fun found f hf hfound => ?_
  exact .ok hf (by simp [Declaration.unplaced, hfound])

theorem line_complete {decl : Declaration} (h : IsDeclaration false ks decl)
    (hlevels : decl.levels ≤ maxNesting) (hc : Reads c.ahead ks rest)
    (hrest : (nextKind rest).endsLine) : Finds (line c) rest (·.unplaced = decl.unplaced) := by
  refine (declaration_complete h hlevels hc hrest).bind fun found d hd hfound => ?_
  dsimp only
  rw [if_pos (by rwa [Cursor.kind_eq, hd])]
  exact .ok hd hfound

end NativeInterface.Parser
