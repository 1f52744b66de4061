import NativeInterface.Proofs.Places
import NativeInterface.Proofs.Tiling
import NativeInterface.Proofs.TreePlaces

/-!
# Places of nodes

A token that is no line end stops before the next token starts (`laid_lex`). Nodes cover the tokens
they were read from, so nodes that were read one behind the other stand one behind the other, within
the node they are parts of (`SourceFile.spans_of_parse`).
-/

namespace NativeInterface

/-! ## Order of tokens -/

/-- The span `a` ends before the span `b` starts. -/
def Span.Precedes (a b : Span) : Prop :=
  a.last.1 < b.first.1 ∨ a.last.1 = b.first.1 ∧ a.last.2 < b.first.2

/-- Tokens as they stand in a text. Line ends are left out of the strict order, since they may stand
where their neighbours do. -/
structure Token.Laid (ts : List Token) : Prop where
  follows : ts.Pairwise Follows
  precedes : ts.Pairwise fun t u => t.kind.endsLine = false → t.span.Precedes u.span
  forward : ∀ t ∈ ts, t.kind.endsLine = false → Span.before t.span.first t.span.last

theorem Token.Laid.sublist {us ts : List Token} (h : Laid ts) (hsub : us.Sublist ts) : Laid us where
  follows := h.follows.sublist hsub
  precedes := h.precedes.sublist hsub
  forward t ht := h.forward t (hsub.subset ht)

theorem Position.precedes_of_before {p q : Position} {a b : Span} (hp : 2 ≤ p.column)
    (hlast : a.last = p.lastBefore) (hfirst : b.first = q.pair) (h : Span.before p.pair q.pair) :
    a.Precedes b := by
  rw [Span.before_iff] at h
  rw [Span.Precedes, hlast, hfirst]
  unfold lastBefore
  unfold pair at h ⊢
  dsimp only at h ⊢
  omega

namespace Lexed
open Position (start)

variable {cs : List Char} {p : Piece}

theorem Piece.FoundIn.two_le_column (h : p.FoundIn [] cs) (hkind : p.kind.endsLine = false) :
    2 ≤ (start.after p.through).column := by
  obtain ⟨c, tail, rest, htext, -, hscan⟩ := h.token_of_ne hkind
  obtain ⟨d, hlast, hd⟩ := Lexeme.getLast?_of_scan hscan
  rw [← htext] at hlast
  have hthrough : p.through.getLast? = some d := by
    rw [Piece.through, List.getLast?_append, hlast]
    rfl
  exact Position.two_le_column_after (Nat.le_refl 1) hthrough hd

theorem Piece.FoundIn.forward (h : p.FoundIn [] cs) (hkind : p.kind.endsLine = false) :
    Span.before p.token.span.first p.token.span.last := by
  obtain ⟨c, tail, rest, htext, -, -⟩ := h.token_of_ne hkind
  have hcolumn : 1 ≤ (start.after p.before).column := Position.column_after (Nat.le_refl 1) _
  have hnonempty : p.text ≠ [] := by simp [htext]
  have hlast := Position.before_lastBefore_after hcolumn hnonempty
  rwa [← Position.after_append] at hlast

theorem Piece.FoundIn.precedes (h : p.FoundIn [] cs) (hkind : p.kind.endsLine = false)
    {text : List Char} (htext : p.through <+: text) {s : Span}
    (hfirst : s.first = (start.after text).pair) : p.token.span.Precedes s := by
  obtain ⟨rest, rfl⟩ := htext
  exact Position.precedes_of_before (h.two_le_column hkind) rfl hfirst
    (Position.before_after_append _ rest)

end Lexed

theorem laid_lex {text : String} (h : (lex text).faults = []) : Token.Laid (lex text).tokens := by
  have hfollows := (standIn_lex h).pairwise_follows
  obtain ⟨ps, hps, htokens⟩ := exists_faultFree h
  refine ⟨hfollows, ?_, ?_⟩
  · rw [htokens, Lexed.tokensOf, List.pairwise_append, List.pairwise_map]
    refine ⟨?_, List.pairwise_singleton .., ?_⟩
    · refine hps.pairwise.imp_of_mem fun hp hq hpq hkind => ?_
      exact (hps.found hp).precedes hkind hpq rfl
    · rw [List.forall_mem_map]
      intro p hp u hu hkind
      obtain ⟨front, rest, hbefore, hsplit, -⟩ := hps.found hp
      rw [List.mem_singleton.mp hu]
      refine (hps.found hp).precedes hkind ⟨rest, ?_⟩ rfl
      rw [hsplit, Lexed.Piece.through, hbefore, List.nil_append]
  · intro t ht hkind
    rw [htokens, Lexed.tokensOf] at ht
    rcases List.mem_append.mp ht with ht | ht
    · obtain ⟨p, hp, rfl⟩ := List.mem_map.mp ht
      exact (hps.found hp).forward hkind
    · rw [List.mem_singleton.mp ht] at hkind
      cases hkind

/-! ## One behind the other -/

/-- What stands one behind the other covers spans one behind the other. -/
theorem InOrder.pairwise {α : Type} {R : List Token → α → Prop} {ts : List Token} {as : List α}
    (h : InOrder R ts as) {span : α → Span}
    (hR : ∀ us a, R us a → Covers us (span a) ∧ ∀ t ∈ us, t.kind.endsLine = false)
    (hts : ts.Pairwise fun t u => t.kind.endsLine = false → t.span.Precedes u.span) :
    as.Pairwise fun a b => (span a).Precedes (span b) := by
  induction h with
  | nil => exact .nil
  | @cons front us ts a as ha hrest ih =>
    obtain ⟨-, hbehind, -⟩ := List.pairwise_append.mp hts
    obtain ⟨-, hlater, hacross⟩ := List.pairwise_append.mp hbehind
    refine List.pairwise_cons.mpr ⟨fun b hb => ?_, ih hlater⟩
    obtain ⟨⟨-, ⟨t, ht, hlast⟩⟩, hline⟩ := hR us a ha
    obtain ⟨vs, hvs, hvb⟩ := hrest.exists_of_mem hb
    obtain ⟨⟨⟨u, hu, hfirst⟩, -⟩, -⟩ := hR vs b hvb
    have hmem := List.mem_of_getLast? ht
    have hprecedes := hacross t hmem u (hvs.subset (List.mem_of_mem_head? hu)) (hline t hmem)
    rwa [Span.Precedes, ← hlast, ← hfirst] at hprecedes

/-! ## Nodes -/

/-- The spans lie within `outer`, one behind the other. -/
structure Span.Encloses (outer : Span) (inner : List Span) : Prop where
  forward : before outer.first outer.last
  within : ∀ s ∈ inner, outer.Within s
  ordered : inner.Pairwise Precedes

/-- An expression of the tree of another one. -/
inductive Expr.NodeOf (a : Expr) : Expr → Prop
  | self : NodeOf a a
  | part {e b : Expr} : .inr b ∈ e.parts → NodeOf a b → NodeOf a e

/-- An expression of the trees in the payload. -/
def Declaration.HasNode (d : Declaration) (a : Expr) : Prop := ∃ e ∈ d.payload, a.NodeOf e

section
variable {ts : List Token} {e : Expr} {d : Declaration}

theorem not_endsLine_of_inLine (h : Grammar.InLine (ts.map (·.kind))) {t : Token} (ht : t ∈ ts) :
    t.kind.endsLine = false :=
  h _ (List.mem_map_of_mem ht)

theorem Expr.Derives.inLine (h : e.Derives ts) : Grammar.InLine (ts.map (·.kind)) := by
  cases h with
  | expr h => exact h.inLine
  | pairs h => exact h.inLine

theorem Expr.From.derives (h : e.From ts) : e.Derives ts := by
  obtain ⟨hderives, -, -⟩ := h
  exact hderives

theorem Part.inLine {part : Ident ⊕ Expr} (h : Part Expr.From ts part) :
    ∀ t ∈ ts, t.kind.endsLine = false := by
  cases h with
  | @key u name hu =>
    intro t ht
    rw [List.mem_singleton.mp ht]
    rcases hu with hu | hu
    · rw [hu]
      rfl
    · rw [hu]
      rfl
  | expr he => exact fun t => not_endsLine_of_inLine he.derives.inLine

theorem Covers.forward {s : Span} (h : Covers ts s) (hts : Token.Laid ts)
    (hline : ∀ t ∈ ts, t.kind.endsLine = false) : Span.before s.first s.last := by
  obtain ⟨⟨t, ht, hfirst⟩, ⟨u, hu, hlast⟩⟩ := h
  have hmem := List.mem_of_mem_head? ht
  rw [hfirst, hlast]
  exact Span.before_trans (hts.forward t hmem (hline t hmem))
    (Token.before_last hts.follows hu hmem)

/-- The parts of a node stand within it, one behind the other. -/
theorem Covers.encloses {s : Span} {parts : List (Ident ⊕ Expr)} (h : Covers ts s)
    (hparts : Inside Expr.From ts parts) (hts : Token.Laid ts)
    (hline : ∀ t ∈ ts, t.kind.endsLine = false) : s.Encloses (parts.map partSpan) where
  forward := h.forward hts hline
  within := by
    rw [List.forall_mem_map]
    intro part hpart
    obtain ⟨us, hus, hpart⟩ := hparts.exists_of_mem hpart
    exact h.within hpart.covers hus.sublist hts.follows
  ordered :=
    List.pairwise_map.mpr (hparts.pairwise (fun _ _ h => ⟨h.covers, h.inLine⟩) hts.precedes)

theorem Expr.From.encloses (h : e.From ts) (hts : Token.Laid ts) :
    e.span.Encloses (e.parts.map partSpan) :=
  h.over.covers.encloses h.over.inside hts fun _ => not_endsLine_of_inLine h.derives.inLine

theorem Declaration.From.inLine (h : d.From ts) : ∀ t ∈ ts, t.kind.endsLine = false :=
  fun _ => not_endsLine_of_inLine h.derives.inLine

/-- Every node of a tree was read from a stretch of its tokens. -/
theorem Expr.From.exists_of_nodeOf {a : Expr} (h : e.From ts) (ha : a.NodeOf e) :
    ∃ us, us <:+: ts ∧ a.From us := by
  induction ha generalizing ts with
  | self => exact ⟨ts, List.infix_rfl, h⟩
  | part hb _ ih =>
    obtain ⟨us, hus, hb⟩ := Inside.exists_of_expr h.over.inside hb
    obtain ⟨vs, hvs, hva⟩ := ih hb
    exact ⟨vs, hvs.trans hus, hva⟩

end

/-! ## Declarations -/

section
variable {ts : List Token} {d : Declaration}

theorem Declaration.From.encloses (h : d.From ts) (hts : Token.Laid ts) :
    d.span.Encloses (d.kind.span :: d.payload.map (·.span)) := by
  have hencloses := h.covers.encloses h.inside hts h.inLine
  rwa [List.map_cons, List.map_map] at hencloses

theorem Declaration.From.exists_of_hasNode {a : Expr} (h : d.From ts) (ha : d.HasNode a) :
    ∃ us, us <:+: ts ∧ a.From us := by
  obtain ⟨e, he, ha⟩ := ha
  obtain ⟨us, hus, he⟩ := h.exists_of_mem_payload he
  obtain ⟨vs, hvs, hva⟩ := he.exists_of_nodeOf ha
  exact ⟨vs, hvs.trans hus, hva⟩

end

/-- A declaration of a file was read from a stretch of its tokens, and each node of its trees from a
stretch of these. They start with the first token of the stretch and end with the last one, their
parts stand within them and one behind the other, and so do the declarations in the file. -/
theorem SourceFile.spans_of_parse (f : SourceFile) :
    (∀ d ∈ f.parse.declarations, ∃ ts, ts <:+: (lex f.text).tokens ∧ d.From ts ∧
      d.span.Encloses (d.kind.span :: d.payload.map (·.span)) ∧
      ∀ e, d.HasNode e → ∃ us, us <:+: ts ∧ e.From us ∧
        e.span.Encloses (e.parts.map partSpan)) ∧
    f.parse.declarations.Pairwise fun d d' => d.span.Precedes d'.span := by
  by_cases hclean : (lex f.text).faults = []
  · have hlaid := laid_lex hclean
    have hread := (Parsed.standsIn_ofTokens hlaid.follows).declarations
    rw [parse_of_lex hclean]
    refine ⟨fun d hd => ?_, hread.pairwise (fun _ _ h => ⟨h.covers, h.inLine⟩) hlaid.precedes⟩
    obtain ⟨ts, hts, hd⟩ := hread.exists_of_mem hd
    have hlaid := hlaid.sublist hts.sublist
    refine ⟨ts, hts, hd, hd.encloses hlaid, fun e he => ?_⟩
    obtain ⟨us, hus, he⟩ := hd.exists_of_hasNode he
    exact ⟨us, hus, he, he.encloses (hlaid.sublist hus.sublist)⟩
  · -- A file with faults in its characters is not parsed.
    have hnone : f.parse.declarations = [] :=
      congrArg ParsedFile.declarations (if_neg fun h => hclean (List.isEmpty_iff.mp h))
    rw [hnone]
    exact ⟨fun _ hd => absurd hd List.not_mem_nil, .nil⟩

/-- A declaration on three lines, with commas at the end of brackets and of the line below -/
theorem SourceFile.spans_of_parse_lines :
    let f : SourceFile := ⟨"a.spec", "spec f(\n a, [k: \"é\"],) ::\n :x | y\n\ntype t :: :u,"⟩
    f.parse.declarations.map (·.span) = [⟨1, 1, 3, 7⟩, ⟨5, 1, 5, 13⟩] ∧
    f.parse.declarations.map (·.payload.map (·.parts.map partSpan)) =
      [[[⟨1, 6, 2, 15⟩, ⟨3, 2, 3, 7⟩]], [[⟨5, 6, 5, 6⟩, ⟨5, 11, 5, 12⟩]]] ∧
    (∀ d ∈ f.parse.declarations, ∃ ts, ts <:+: (lex f.text).tokens ∧ d.From ts ∧
      ∀ e, d.HasNode e → e.span.Encloses (e.parts.map partSpan)) ∧
    f.parse.declarations.Pairwise fun d d' => d.span.Precedes d'.span := by
  intro f
  refine ⟨by decide +kernel, by decide +kernel, fun d hd => ?_, (spans_of_parse f).2⟩
  obtain ⟨ts, hts, hd, -, hnodes⟩ := (spans_of_parse f).1 d hd
  refine ⟨ts, hts, hd, fun e he => ?_⟩
  obtain ⟨-, -, -, hencloses⟩ := hnodes e he
  exact hencloses

end NativeInterface
