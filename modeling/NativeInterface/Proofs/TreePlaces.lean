import NativeInterface.Proofs.ParserExact
import NativeInterface.Proofs.TokenPlaces

/-!
# Where trees stand

A node of a tree derives from the tokens it was read from and covers them, from the start of the
first to the end of the last, and its keys and children were read from parts of these (`Expr.From`).
A fault stands at a token that was ahead. Both are shown of each reader in one pass (`Took`).
-/

namespace NativeInterface
variable {ts : List Token} {e : Expr}

/-! ## Spans of token lists -/

namespace Span

theorem first_merge {a b : Span} (h : before a.first b.first) : (a.merge b).first = a.first := by
  unfold merge
  exact congrArg (fun p : Nat × Nat => (p.1, p.2)) (if_pos h)

theorem last_merge {a b : Span} (h : before a.last b.last) : (a.merge b).last = b.last := by
  have hlast : (if before b.last a.last then a.last else b.last) = b.last := by
    split
    · rename_i h'
      rw [before_iff] at h h'
      exact Prod.ext (by omega) (by omega)
    · rfl
  exact congrArg (fun p : Nat × Nat => (p.1, p.2)) hlast

/-- The span `s` lies within the span `outer`. -/
structure Within (outer s : Span) : Prop where
  first : before outer.first s.first
  last : before s.last outer.last

end Span

/-- The span from the start of the first token to the end of the last one. -/
structure Covers (ts : List Token) (s : Span) : Prop where
  first : ∃ t, ts.head? = some t ∧ s.first = t.span.first
  last : ∃ t, ts.getLast? = some t ∧ s.last = t.span.last

theorem covers_singleton (t : Token) : Covers [t] t.span := ⟨⟨t, rfl, rfl⟩, ⟨t, rfl, rfl⟩⟩

namespace Covers
variable {ts us : List Token} {a b s : Span}

theorem merge (hts : Covers ts a) (hus : Covers us b) (mid : List Token)
    (hord : (ts ++ (mid ++ us)).Pairwise Token.Follows) :
    Covers (ts ++ (mid ++ us)) (a.merge b) := by
  obtain ⟨⟨t, ht, hat⟩, ⟨t', ht', hat'⟩⟩ := hts
  obtain ⟨⟨u, hu, hbu⟩, ⟨u', hu', hbu'⟩⟩ := hus
  have hfollows {x y : Token} (hx : x ∈ ts) (hy : y ∈ us) : x.Follows y :=
    (List.pairwise_append.mp hord).2.2 x hx y (List.mem_append_right mid hy)
  have hfirst := (hfollows (List.mem_of_mem_head? ht) (List.mem_of_mem_head? hu)).1
  have hlast := (hfollows (List.mem_of_getLast? ht') (List.mem_of_getLast? hu')).2
  rw [← hat, ← hbu] at hfirst
  rw [← hat', ← hbu'] at hlast
  refine ⟨⟨t, ?_, by rw [Span.first_merge hfirst, hat]⟩,
    ⟨u', ?_, by rw [Span.last_merge hlast, hbu']⟩⟩
  · rw [List.head?_append, ht]
    rfl
  · rw [List.getLast?_append, List.getLast?_append, hu']
    rfl

end Covers

namespace Token
variable {ts : List Token} (hord : ts.Pairwise Follows) {t u : Token}
include hord

theorem first_before (ht : ts.head? = some t) (hu : u ∈ ts) :
    Span.before t.span.first u.span.first := by
  cases ts with
  | nil => cases hu
  | cons v ts =>
    cases ht
    rcases List.mem_cons.mp hu with rfl | hu
    · exact Span.before_refl _
    · exact ((List.pairwise_cons.mp hord).1 u hu).1

theorem before_last (ht : ts.getLast? = some t) (hu : u ∈ ts) :
    Span.before u.span.last t.span.last := by
  obtain ⟨init, rfl⟩ := List.getLast?_eq_some_iff.mp ht
  rcases List.mem_append.mp hu with hu | hu
  · exact ((List.pairwise_append.mp hord).2.2 u hu t (List.mem_singleton.mpr rfl)).2
  · rw [List.mem_singleton.mp hu]
    exact Span.before_refl _

end Token

/-- What covers some of the tokens lies within what covers all. -/
theorem Covers.within {ts us : List Token} {a b : Span} (hts : Covers ts a) (hus : Covers us b)
    (hsub : us.Sublist ts) (hord : ts.Pairwise Token.Follows) : a.Within b := by
  obtain ⟨⟨t, ht, hat⟩, ⟨t', ht', hat'⟩⟩ := hts
  obtain ⟨⟨u, hu, hbu⟩, ⟨u', hu', hbu'⟩⟩ := hus
  refine ⟨?_, ?_⟩
  · rw [hat, hbu]
    exact Token.first_before hord ht (hsub.subset (List.mem_of_mem_head? hu))
  · rw [hat', hbu']
    exact Token.before_last hord ht' (hsub.subset (List.mem_of_getLast? hu'))

/-! ## Trees and their tokens -/

/-- The keys and expressions right inside an expression, from left to right. -/
def Expr.parts : Expr → List (Ident ⊕ Expr)
  | ident .. | dotted .. | atom .. | int .. | str .. => []
  | list items _ | tuple items _ => items.map .inr
  | call name args _ => .inl name :: args.map .inr
  | typed lhs rhs _ | alt lhs rhs _ => [.inr lhs, .inr rhs]
  | map _ pairs _ | keyword pairs _ => pairs.flatMap fun p => [.inl p.1, .inr p.2]

/-- The token is a word that stands for the name, as a key or as it is. -/
def Token.Names (t : Token) (name : String) : Prop := t.kind = .key name ∨ t.kind = .identifier name

/-- Each of the values has tokens, which are related to it by `R`, and these stand one behind the
other. -/
inductive InOrder {α : Type} (R : List Token → α → Prop) : List Token → List α → Prop
  | nil {ts : List Token} : InOrder R ts []
  | cons {front us ts : List Token} {a : α} {as : List α} : R us a → InOrder R ts as →
    InOrder R (front ++ (us ++ ts)) (a :: as)

/-- A key was read from one token; the tokens of an expression are related to it by `R`. -/
inductive Part (R : List Token → Expr → Prop) : List Token → Ident ⊕ Expr → Prop
  | key {t : Token} {name : String} : t.Names name → Part R [t] (.inl ⟨name, t.span⟩)
  | expr {ts : List Token} {e : Expr} : R ts e → Part R ts (.inr e)

/-- The parts were read one behind the other from some of the tokens. -/
abbrev Inside (R : List Token → Expr → Prop) (ts : List Token) (parts : List (Ident ⊕ Expr)) :
    Prop :=
  InOrder (Part R) ts parts

/-- The expression derives from the kinds of the tokens. -/
inductive Expr.Derives (ts : List Token) : Expr → Prop
  | expr {e : Expr} : Grammar.IsExpr false (ts.map (·.kind)) e → Derives ts e
  | pairs {pairs : List (Ident × Expr)} {span : Span} :
    Grammar.IsPairs false (ts.map (·.kind)) pairs → Derives ts (.keyword pairs span)

/-- The expression was read from the tokens. -/
inductive Expr.From : List Token → Expr → Prop
  | mk {ts : List Token} {e : Expr} :
    e.Derives ts → Covers ts e.span → InOrder (Part From) ts e.parts → From ts e

/-- The declaration was read from the tokens. -/
structure Declaration.From (ts : List Token) (d : Declaration) : Prop where
  derives : Grammar.IsDeclaration false (ts.map (·.kind)) d
  covers : Covers ts d.span
  inside : Inside Expr.From ts (.inl d.kind :: d.payload.map .inr)

namespace InOrder
variable {α : Type} {R : List Token → α → Prop} {us ts : List Token} {a : α} {as : List α}

theorem here (ha : R us a) (h : InOrder R ts as) : InOrder R (us ++ ts) (a :: as) :=
  show InOrder R ([] ++ (us ++ ts)) (a :: as) from .cons ha h

theorem skip (h : InOrder R ts as) (front : List Token) : InOrder R (front ++ ts) as := by
  cases h with
  | nil => exact .nil
  | cons ha h =>
    rw [← List.append_assoc]
    exact .cons ha h

theorem append (h : InOrder R ts as) (rest : List Token) : InOrder R (ts ++ rest) as := by
  induction h with
  | nil => exact .nil
  | cons ha _ ih =>
    rw [List.append_assoc, List.append_assoc]
    exact .cons ha ih

theorem exists_of_mem (h : InOrder R ts as) (ha : a ∈ as) : ∃ us, us <:+: ts ∧ R us a := by
  induction h with
  | nil => cases ha
  | @cons front us ts b as hb _ ih =>
    rcases List.mem_cons.mp ha with rfl | ha
    · exact ⟨us, ⟨front, ts, List.append_assoc ..⟩, hb⟩
    · obtain ⟨vs, hvs, hva⟩ := ih ha
      refine ⟨vs, hvs.trans (List.IsSuffix.isInfix ?_), hva⟩
      exact ⟨front ++ us, List.append_assoc ..⟩

end InOrder

theorem Inside.exists_of_expr {R : List Token → Expr → Prop} {parts : List (Ident ⊕ Expr)}
    (h : Inside R ts parts) (he : .inr e ∈ parts) : ∃ us, us <:+: ts ∧ R us e := by
  obtain ⟨us, hus, hpart⟩ := h.exists_of_mem he
  cases hpart with
  | expr he => exact ⟨us, hus, he⟩

/-- The expression covers the tokens, and its parts were read from some of them. -/
structure Expr.Over (ts : List Token) (e : Expr) : Prop where
  covers : Covers ts e.span
  inside : Inside Expr.From ts e.parts

theorem Expr.From.over (h : e.From ts) : e.Over ts := by
  obtain ⟨-, hcovers, hinside⟩ := h
  exact ⟨hcovers, hinside⟩

theorem Expr.From.of_over (hderives : e.Derives ts) (h : e.Over ts) : e.From ts :=
  .mk hderives h.covers h.inside

/-- Where a part stands. -/
def partSpan : Ident ⊕ Expr → Span
  | .inl key => key.span
  | .inr e => e.span

theorem Part.covers {part : Ident ⊕ Expr} (h : Part Expr.From ts part) :
    Covers ts (partSpan part) := by
  cases h with
  | key => exact covers_singleton _
  | expr he => exact he.over.covers

theorem Declaration.From.exists_of_mem_payload {d : Declaration} (h : d.From ts)
    (he : e ∈ d.payload) : ∃ us, us <:+: ts ∧ e.From us :=
  Inside.exists_of_expr h.inside (List.mem_cons_of_mem _ (List.mem_map_of_mem he))

/-- A place of an expression: its own span, that of a key or a place of a child. -/
inductive Expr.Has (s : Span) : Expr → Prop
  | self {e : Expr} : e.span = s → Has s e
  | key {e : Expr} {k : Ident} : .inl k ∈ e.parts → k.span = s → Has s e
  | part {e a : Expr} : .inr a ∈ e.parts → Has s a → Has s e

/-- A place of a declaration. -/
def Declaration.Has (s : Span) (d : Declaration) : Prop :=
  s = d.span ∨ s = d.kind.span ∨ ∃ e ∈ d.payload, e.Has s

/-- Each place of an expression covers some of its tokens. -/
theorem Expr.From.covers_of_has {s : Span} (hs : e.Has s) (h : e.From ts) :
    ∃ us, us.Sublist ts ∧ Covers us s := by
  induction hs generalizing ts with
  | self hself => exact ⟨ts, List.Sublist.refl ts, hself ▸ h.over.covers⟩
  | key hk hself =>
    obtain ⟨us, hus, hpart⟩ := h.over.inside.exists_of_mem hk
    exact ⟨us, hus.sublist, hself ▸ hpart.covers⟩
  | part ha _ ih =>
    obtain ⟨us, hus, hua⟩ := Inside.exists_of_expr h.over.inside ha
    obtain ⟨vs, hvs, hcovers⟩ := ih hua
    exact ⟨vs, hvs.trans hus.sublist, hcovers⟩

theorem Declaration.From.covers_of_has {s : Span} {d : Declaration} (hs : d.Has s) (h : d.From ts) :
    ∃ us, us.Sublist ts ∧ Covers us s := by
  rcases hs with rfl | rfl | ⟨e, he, hs⟩
  · exact ⟨ts, List.Sublist.refl ts, h.covers⟩
  · obtain ⟨us, hus, hpart⟩ := h.inside.exists_of_mem List.mem_cons_self
    exact ⟨us, hus.sublist, hpart.covers⟩
  · obtain ⟨us, hus, hue⟩ := h.exists_of_mem_payload he
    obtain ⟨vs, hvs, hcovers⟩ := hue.covers_of_has hs
    exact ⟨vs, hvs.trans hus.sublist, hcovers⟩

/-- A node of two expressions with one token between them. -/
theorem Expr.From.binary {ts us : List Token} {t : Token} {lhs rhs e : Expr} (hlhs : lhs.From ts)
    (hrhs : rhs.From us) (hord : (ts ++ ([t] ++ us)).Pairwise Token.Follows)
    (hspan : e.span = lhs.span.merge rhs.span) (hparts : e.parts = [.inr lhs, .inr rhs]) :
    e.Over (ts ++ ([t] ++ us)) := by
  refine ⟨?_, ?_⟩
  · rw [hspan]
    exact hlhs.over.covers.merge hrhs.over.covers [t] hord
  · rw [hparts]
    refine .here (.expr hlhs) (InOrder.skip ?_ [t])
    exact List.append_nil us ▸ .here (.expr hrhs) .nil

namespace Parser

/-! ## Cursors -/

/-- From `c` to `d` the tokens `front` were taken. -/
structure Steps (c d : Cursor) (front : List Token) : Prop where
  ahead : c.ahead = front ++ d.ahead
  before : d.before = (front.getLast?.map (·.span)).getD c.before

namespace Steps
variable {c d e : Cursor} {front more : List Token}

theorem refl (c : Cursor) : Steps c c [] := ⟨rfl, rfl⟩

theorem trans (h : Steps c d front) (h' : Steps d e more) : Steps c e (front ++ more) := by
  refine ⟨by rw [h.ahead, h'.ahead, List.append_assoc], ?_⟩
  rw [h'.before, h.before, List.getLast?_append]
  cases more.getLast? <;> rfl

theorem next {t : Token} {d : c.Later} (h : c.next = some (t, d)) : Steps c d.val [t] := by
  obtain ⟨before, ahead⟩ := c
  cases ahead with
  | nil => cases h
  | cons t ts =>
    cases h
    exact ⟨rfl, rfl⟩

theorem accept {k : Token.Kind} {d : c.Later} (h : c.accept k = some d) :
    ∃ t, Steps c d.val [t] := by
  unfold Cursor.accept at h
  split at h
  · rename_i t d' hnext
    split at h
    · cases h
      exact ⟨t, next hnext⟩
    · cases h
  · cases h

theorem front_sublist (h : Steps c d front) : front.Sublist c.ahead := by
  rw [h.ahead]
  exact List.sublist_append_left ..

theorem ahead_sublist (h : Steps c d front) : d.ahead.Sublist c.ahead := by
  rw [h.ahead]
  exact List.sublist_append_right ..

theorem ordered (h : Steps c d front) (hord : c.ahead.Pairwise Token.Follows) :
    d.ahead.Pairwise Token.Follows :=
  hord.sublist h.ahead_sublist

theorem front_ordered (h : Steps c d front) (hord : c.ahead.Pairwise Token.Follows) :
    front.Pairwise Token.Follows :=
  hord.sublist h.front_sublist

/-- What a reader that started at the token `t` gives as its span. -/
theorem covers {t : Token} (h : Steps c d (t :: front)) (hord : c.ahead.Pairwise Token.Follows) :
    Covers (t :: front) (t.span.merge d.before) := by
  have hfront := h.front_ordered hord
  rcases List.eq_nil_or_concat front with rfl | ⟨init, u, rfl⟩
  · have hbefore : d.before = t.span := h.before
    rw [hbefore]
    exact ⟨⟨t, rfl, Span.first_merge (Span.before_refl _)⟩,
      ⟨t, rfl, Span.last_merge (Span.before_refl _)⟩⟩
  · have hbefore : d.before = u.span := by
      rw [h.before, List.concat_eq_append, ← List.cons_append, List.getLast?_append]
      rfl
    rw [hbefore]
    rw [List.concat_eq_append] at hfront ⊢
    exact (covers_singleton t).merge (covers_singleton u) init hfront

/-- A node that starts with the token `t`, with all its parts behind that token. -/
theorem node {t : Token} {a : Expr} (h : Steps c d (t :: front))
    (hord : c.ahead.Pairwise Token.Follows) (hspan : a.span = t.span.merge d.before)
    (hparts : Inside Expr.From front a.parts) : a.Over (t :: front) :=
  ⟨hspan ▸ h.covers hord, hparts.skip [t]⟩

end Steps

/-! ## Readings -/

/-- The place of a token, or the place where an empty list of tokens stands. -/
def FaultAt (ts : List Token) (s : Span) : Prop := s ∈ ts.map (·.span) ∨ s = .point 1 1

theorem Cursor.faultAt_span (c : Cursor) : FaultAt c.ahead c.span := by
  obtain ⟨before, ahead⟩ := c
  cases ahead with
  | nil => exact .inr rfl
  | cons t ts => exact .inl (List.mem_cons_self ..)

/-- A reading from `c` on either takes tokens that stand to what was found as `Q` says, or fails at
one of the tokens ahead. -/
inductive Took {α : Type} {P : Cursor → Prop} (Q : List Token → α → Prop) (c : Cursor) :
    Except (Located ParseFault) (α × { d : Cursor // P d }) → Prop
  | ok {a : α} {d : { d : Cursor // P d }} {front : List Token} :
    Steps c d.val front → Q front a → Took Q c (.ok (a, d))
  | error {fault : Located ParseFault} : FaultAt c.ahead fault.span → Took Q c (.error fault)

namespace Took
variable {α β : Type} {P P' : Cursor → Prop} {Q : List Token → α → Prop}
  {Q' : List Token → β → Prop} {c d : Cursor} {front : List Token}

theorem done {a : α} {hd : P d} (h : Q [] a) : Took (P := P) Q d (.ok (a, ⟨d, hd⟩)) :=
  .ok (.refl d) h

theorem fault (c : Cursor) (cause : ParseFault) : Took (P := P) Q c (c.fault cause) :=
  .error c.faultAt_span

theorem step {x : Except (Located ParseFault) (α × { d : Cursor // P d })} (hs : Steps c d front)
    (h : Took (fun ts a => Q (front ++ ts) a) d x) : Took Q c x := by
  cases h with
  | ok hs' hq => exact .ok (hs.trans hs') hq
  | error hfault =>
    refine .error (hfault.imp_left fun hmem => ?_)
    rw [hs.ahead, List.map_append]
    exact List.mem_append_right _ hmem

theorem bind {x : Except (Located ParseFault) (α × { d : Cursor // P d })}
    {f : α × { d : Cursor // P d } → Except (Located ParseFault) (β × { d : Cursor // P' d })}
    (h : Took Q c x) (hf : ∀ a d front, Steps c d.val front → Q front a →
      Took (fun ts b => Q' (front ++ ts) b) d.val (f (a, d))) : Took Q' c (x >>= f) := by
  cases h with
  | ok hs hq => exact (hf _ _ _ hs hq).step hs
  | error hfault => exact .error hfault

/-- What is found derives from the tokens that were taken. -/
theorem derives {S : List Token.Kind → α → Prop} {Q' : List Token → α → Prop}
    {x : Except (Located ParseFault) (α × { d : Cursor // P d })} (h : Took Q c x)
    (hx : ∀ {a d}, x = .ok (a, d) → ∃ ks, Reads c.ahead ks d.val.ahead ∧ S ks a)
    (himp : ∀ ts a, Q ts a → S (ts.map (·.kind)) a → Q' ts a) : Took Q' c x := by
  cases h with
  | @ok a d front hs hq =>
    obtain ⟨ks, ⟨front', hahead, rfl⟩, hderives⟩ := hx rfl
    obtain rfl : front' = front := List.append_cancel_right (hahead.symm.trans hs.ahead)
    exact .ok hs (himp _ _ hq hderives)
  | error hfault => exact .error hfault

theorem expect {k : Token.Kind} {c : Cursor}
    {f : c.Later → Except (Located ParseFault) (β × { d : Cursor // P' d })}
    (hf : ∀ d t, Steps c d.val [t] → Took (fun ts b => Q' (t :: ts) b) d.val (f d)) :
    Took Q' c (Parser.expect k c >>= f) := by
  unfold Parser.expect
  split
  · rename_i d haccept
    obtain ⟨t, ht⟩ := Steps.accept haccept
    exact (hf d t ht).step ht
  · exact fault c _

end Took

theorem took_dottedName (c : Cursor) : Took (fun ts _ => ts ≠ []) c (dottedName c) := by
  fun_induction dottedName c with
  | case1 c part span d hnext dotSpan e hdot next hsegment ih =>
    refine (Took.step (.next hdot) ?_).step (.next hnext)
    exact ih.bind fun parts f front hs hne => .done (by simp)
  | case2 c part span d hnext dotSpan e hdot hsegment => exact .ok (.next hnext) (by simp)
  | case3 c part span d hnext hdot => exact .ok (.next hnext) (by simp)
  | case4 c hname => exact .fault c _

section
variable {read : Reader Expr} {n : Nat} (hsound : Sound read n)
  (hread : ∀ c : Cursor, c.ahead.Pairwise Token.Follows → Took Expr.From c (read c))
include hread

theorem took_pairs (close : Token.Kind) (c : Cursor) (hord : c.ahead.Pairwise Token.Follows) :
    Took (fun ts ps => ts ≠ [] ∧
      Inside Expr.From ts (ps.flatMap fun p => [.inl p.1, .inr p.2])) c (pairs read close c) := by
  fun_induction pairs read close c with
  | case1 c name span d hnext ih =>
    have hs := Steps.next hnext
    refine Took.step hs ((hread d (hs.ordered hord)).bind fun value e front hs' hvalue => ?_)
    have hpair {ts : List Token} {parts : List (Ident ⊕ Expr)} (h : Inside Expr.From ts parts) :
        Inside Expr.From (⟨.key name, span⟩ :: (front ++ ts))
          (.inl ⟨name, span⟩ :: .inr value :: parts) :=
      .here (.key (.inl rfl)) (.here (.expr hvalue) h)
    dsimp only
    split
    · exact .done ⟨by simp, hpair .nil⟩
    · split
      · rename_i f hcomma
        obtain ⟨t, ht⟩ := Steps.accept hcomma
        have hord' := ht.ordered (hs'.ordered (hs.ordered hord))
        refine Took.step ht ((ih e f hord').bind fun rest g more hs'' hrest => .done ?_)
        rw [List.append_nil]
        exact ⟨by simp, hpair (hrest.2.skip [t])⟩
      · exact .done ⟨by simp, hpair .nil⟩
  | case2 c hkey => exact .fault c _

include hsound in
theorem took_keywords (close : Token.Kind) (c : Cursor) (hord : c.ahead.Pairwise Token.Follows) :
    Took Expr.From c (keywords read close c) := by
  have hpairs {e : Expr} {d : c.Later} (h : keywords read close c = .ok (e, d)) :
      ∃ ks, Reads c.ahead ks d.val.ahead ∧
        ∃ ps span, Grammar.IsPairs false ks ps ∧ e = .keyword ps span := by
    obtain ⟨ks, ps, span, hks, hpairs, he, -⟩ := keywords_sound hsound h
    exact ⟨ks, hks, ps, span, hpairs, he⟩
  suffices hover : Took Expr.Over c (keywords read close c) from
      hover.derives hpairs fun ts e hover hderives => by
    obtain ⟨ps, span, hpairs, rfl⟩ := hderives
    exact .of_over (.pairs hpairs) hover
  refine (took_pairs hread close c hord).bind fun ps d front hs hps => .done ?_
  obtain ⟨t, front, rfl⟩ := List.exists_cons_of_ne_nil hps.1
  have hspan : c.span = t.span := by
    unfold Cursor.span
    rw [hs.ahead]
    rfl
  rw [List.append_nil, hspan]
  exact ⟨hs.covers hord, hps.2⟩

include hsound in
theorem took_items (close : Token.Kind) (c : Cursor) (hord : c.ahead.Pairwise Token.Follows) :
    Took (fun ts es => Inside Expr.From ts (es.map .inr)) c (items read close c) := by
  fun_induction items read close c with
  | case1 c d hclose =>
    obtain ⟨t, ht⟩ := Steps.accept hclose
    exact .ok ht .nil
  | case2 c _ name _ =>
    refine (took_keywords hsound hread close c hord).bind fun e d front hs he => ?_
    exact .expect fun f t ht => .done (.here (.expr he) .nil)
  | case3 c _ _ ih =>
    refine (hread c hord).bind fun e d front hs he => ?_
    dsimp only
    split
    · rename_i f hcomma
      obtain ⟨t, ht⟩ := Steps.accept hcomma
      refine Took.step ht ((ih d f (ht.ordered (hs.ordered hord))).bind
        fun es g more _ hes => .done ?_)
      rw [List.append_nil]
      exact .here (.expr he) (hes.skip [t])
    · exact .expect fun f t ht => .done (.here (.expr he) .nil)

theorem took_entries (c : Cursor) (hord : c.ahead.Pairwise Token.Follows) :
    Took (fun ts ps => Inside Expr.From ts (ps.flatMap fun p => [.inl p.1, .inr p.2])) c
      (entries read c) := by
  unfold entries
  split
  · rename_i d hclose
    obtain ⟨t, ht⟩ := Steps.accept hclose
    exact .ok ht .nil
  · refine (took_pairs hread .rbrace c hord).bind fun ps d front hs hps => ?_
    exact .expect fun f t ht => .done (hps.2.append [t])

include hsound in
theorem took_primary (c : Cursor) (hord : c.ahead.Pairwise Token.Follows) :
    Took Expr.From c (primary read c) := by
  suffices hover : Took Expr.Over c (primary read c) from hover.derives
    (fun h => primary_sound hsound h) fun ts e hover hderives =>
      .of_over (.expr (.plain (.plain hderives.1))) hover
  unfold primary
  split
  · exact .fault c _
  rename_i t d hnext
  have hs := Steps.next hnext
  have hrest := hs.ordered hord
  have hleaf {e : Expr} (hspan : e.span = t.span) (hparts : e.parts = []) : e.Over [t] :=
    ⟨hspan ▸ covers_singleton t, hparts ▸ .nil⟩
  split
  · rename_i name hname
    split
    · rename_i e hparen
      obtain ⟨u, hu⟩ := Steps.accept hparen
      refine Took.step hs (Took.step hu ?_)
      refine (took_items hsound hread .rparen e (hu.ordered hrest)).bind
        fun args f front hs' hargs => .done ?_
      rw [List.append_nil]
      have hall : Steps c f.val (t :: u :: front) := hs.trans (hu.trans hs')
      refine ⟨hall.covers hord, ?_⟩
      exact .here (.key (.inr hname)) (hargs.skip [u])
    · exact .ok hs (hleaf rfl rfl)
  · refine (took_dottedName c).bind fun parts e front hs' hne => .done ?_
    obtain ⟨u, front, rfl⟩ := List.exists_cons_of_ne_nil hne
    obtain rfl : t = u := (List.cons.inj (hs.ahead.symm.trans hs'.ahead)).1
    rw [List.append_nil]
    have hparts : Inside Expr.From front (Expr.dotted parts (t.span.merge e.val.before)).parts :=
      .nil
    exact hs'.node hord rfl hparts
  · exact .ok hs (hleaf rfl rfl)
  · exact .ok hs (hleaf rfl rfl)
  · exact .ok hs (hleaf rfl rfl)
  · refine Took.step hs ((took_items hsound hread .rbracket d hrest).bind
      fun found e front hs' hfound => .done ?_)
    rw [List.append_nil]
    exact (hs.trans hs').node hord rfl hfound
  · refine Took.step hs ((took_items hsound hread .rbrace d hrest).bind
      fun found e front hs' hfound => .done ?_)
    rw [List.append_nil]
    exact (hs.trans hs').node hord rfl hfound
  · refine Took.step hs ((took_dottedName d).bind fun name e front hs' _ => ?_)
    refine .expect fun f u hu => ?_
    refine (took_entries hread f (hu.ordered (hs'.ordered hrest))).bind
      fun found g more hs'' hfound => .done ?_
    rw [List.append_nil]
    exact (hs.trans (hs'.trans (hu.trans hs''))).node hord rfl
      ((hfound.skip [u]).skip front)
  · exact .fault c _
  · exact .fault c _
  · exact .fault c _

include hsound in
theorem took_alternatives (c : Cursor) (hord : c.ahead.Pairwise Token.Follows) :
    Took Expr.From c (alternatives read c) := by
  induction c using alternatives.induct with
  | case1 c ih =>
    suffices hover : Took Expr.Over c (alternatives read c) from hover.derives
      (fun h => alternatives_sound hsound h) fun ts e hover hderives =>
        .of_over (.expr (.plain hderives.1)) hover
    rw [alternatives]
    refine (took_primary hsound hread c hord).bind fun lhs d front hs hlhs => ?_
    dsimp only
    split
    · rename_i e hpipe
      obtain ⟨t, ht⟩ := Steps.accept hpipe
      refine Took.step ht ((ih d e (ht.ordered (hs.ordered hord))).bind
        fun rhs f more hs' hrhs => .done ?_)
      rw [List.append_nil]
      have hall := hs.trans (ht.trans hs')
      exact hlhs.binary hrhs (hall.front_ordered hord) rfl rfl
    · exact .done (by rw [List.append_nil]; exact hlhs.over)

end

theorem took_expr (n : Nat) (c : Cursor) (hord : c.ahead.Pairwise Token.Follows) :
    Took Expr.From c (expr n c) := by
  induction n generalizing c with
  | zero => exact .fault c _
  | succ n ih =>
    suffices hover : Took Expr.Over c (expr (n + 1) c) from hover.derives
      (fun h => expr_sound (n + 1) h) fun ts e hover hderives =>
        .of_over (.expr hderives.1) hover
    refine (took_alternatives (expr_sound n) ih c hord).bind fun lhs d front hs hlhs => ?_
    dsimp only
    split
    · rename_i e hcolons
      obtain ⟨t, ht⟩ := Steps.accept hcolons
      refine Took.step ht ((ih e (ht.ordered (hs.ordered hord))).bind
        fun rhs f more hs' hrhs => .done ?_)
      rw [List.append_nil]
      have hall := hs.trans (ht.trans hs')
      exact hlhs.binary hrhs (hall.front_ordered hord) rfl rfl
    · exact .done (by rw [List.append_nil]; exact hlhs.over)

theorem took_payload (c : Cursor) (hord : c.ahead.Pairwise Token.Follows) :
    Took (fun ts es => Inside Expr.From ts (es.map .inr)) c (payload c) := by
  fun_induction payload c with
  | case1 c hend => exact .done .nil
  | case2 c _ name _ =>
    refine (took_keywords (expr_sound _) (took_expr _) .newline c hord).bind
      fun e d front hs he => .done ?_
    exact .here (.expr he) .nil
  | case3 c _ _ ih =>
    refine (took_expr _ c hord).bind fun e d front hs he => ?_
    dsimp only
    split
    · rename_i f hcomma
      obtain ⟨t, ht⟩ := Steps.accept hcomma
      refine Took.step ht ((ih d f (ht.ordered (hs.ordered hord))).bind
        fun es g more _ hes => .done ?_)
      rw [List.append_nil]
      exact .here (.expr he) (hes.skip [t])
    · exact .done (.here (.expr he) .nil)

theorem took_line (c : Cursor) (hord : c.ahead.Pairwise Token.Follows) :
    Took Declaration.From c (line c) := by
  have hdeclaration : Took Declaration.From c (declaration c) := by
    suffices hover : Took (fun ts d => Covers ts d.span ∧
        Inside Expr.From ts (.inl d.kind :: d.payload.map .inr)) c (declaration c) from
      hover.derives (fun h => declaration_sound h) fun ts d hover hderives =>
        ⟨hderives.1, hover.1, hover.2⟩
    unfold declaration
    split
    · rename_i name span d hnext
      have hs := Steps.next hnext
      refine Took.step hs ((took_payload d (hs.ordered hord)).bind
        fun found e front hs' hfound => .done ?_)
      rw [List.append_nil]
      refine ⟨(hs.trans hs').covers hord, ?_⟩
      exact .here (.key (.inr rfl)) hfound
    · exact .fault c _
  refine hdeclaration.bind fun decl e front hs hdecl => ?_
  dsimp only
  split
  · exact .done (by rwa [List.append_nil])
  · exact .fault e.val _

end Parser

namespace Parsed
open NativeInterface.Parser

/-- The declarations were read one behind the other from the tokens, and each fault stands at one of
them. -/
structure StandsIn (r : Parsed) (ts : List Token) : Prop where
  declarations : InOrder Declaration.From ts r.declarations
  faults : ∀ x ∈ r.faults, FaultAt ts x.span

theorem StandsIn.of_suffix {r : Parsed} {us ts : List Token} (h : r.StandsIn us) (hus : us <:+ ts) :
    r.StandsIn ts := by
  obtain ⟨front, rfl⟩ := hus
  refine ⟨h.declarations.skip front, fun x hx => (h.faults x hx).imp_left fun hmem => ?_⟩
  rw [List.map_append]
  exact List.mem_append_right _ hmem

theorem standsIn_lines {budget : Nat} {ts : List Token} (hord : ts.Pairwise Token.Follows) :
    (lines budget ts).StandsIn ts := by
  fun_induction lines budget ts with
  | case1 | case2 => exact ⟨.nil, fun _ hx => absurd hx List.not_mem_nil⟩
  | case3 budget t rest hgoes d e hread tail ih =>
    have hline := took_line ⟨.point 1 1, t :: rest⟩ hord
    rw [hread] at hline
    cases hline with
    | @ok _ _ front hs hfrom =>
      have hahead : t :: rest = front ++ e.val.ahead := hs.ahead
      have hleft : skipNewlines e.val.ahead <:+ e.val.ahead := List.dropWhile_suffix _
      have htail := (ih ((hs.ordered hord).sublist hleft.sublist)).of_suffix hleft
      refine ⟨?_, (htail.of_suffix ⟨front, hahead.symm⟩).faults⟩
      rw [hahead]
      exact .here hfrom htail.declarations
  | case4 budget t rest hgoes fault hread tail ih =>
    have hline := took_line ⟨.point 1 1, t :: rest⟩ hord
    rw [hread] at hline
    cases hline with
    | error hfault =>
      have hleft := nextLine_suffix (t :: rest)
      have htail := (ih (hord.sublist hleft.sublist)).of_suffix hleft
      exact ⟨htail.declarations, List.forall_mem_cons.mpr ⟨hfault, htail.faults⟩⟩

theorem standsIn_ofTokens {ts : List Token} (hord : ts.Pairwise Token.Follows) :
    (ofTokens ts).StandsIn ts :=
  (standsIn_lines (hord.sublist (List.dropWhile_sublist _))).of_suffix (List.dropWhile_suffix _)

end Parsed

end NativeInterface
