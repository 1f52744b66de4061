import NativeInterface.Proofs.Nesting
import NativeInterface.Proofs.Unplaced

/-!
# Depth of trees and of calls

The nesting of expressions is limited in levels. A level adds at most three nodes to a way down the
tree and one call of each of the two readers that call themselves, `Parser.expr` and
`Parser.alternatives`, to those that are inside each other, but for `|`: the alternatives of a line
are all on one level, each inside the one before, so every `|` adds a node and a call of its own.
These two readers, and what is done with the trees, are defined a second time by calls of which only
so many may be inside each other. They agree with the first ones wherever no line has more than
`Parser.maxNesting` tokens of `|` and `4 * Parser.maxNesting` calls are allowed. For lines with any
number of `|`, no number of calls is enough.
-/

namespace NativeInterface

/-! ## Trees -/

namespace Expr

mutual

/-- The nodes on the longest way from an expression down to a leaf. -/
def height : Expr → Nat
  | ident _ _ | dotted _ _ | atom _ _ | int _ _ | str _ _ => 1
  | list items _ | tuple items _ | call _ items _ => heightOfAll items + 1
  | typed lhs rhs _ | alt lhs rhs _ => max lhs.height rhs.height + 1
  | map _ pairs _ | keyword pairs _ => heightOfPairs pairs + 1

def heightOfAll : List Expr → Nat
  | [] => 0
  | e :: es => max e.height (heightOfAll es)

def heightOfPairs : List (Ident × Expr) → Nat
  | [] => 0
  | (_, value) :: rest => max value.height (heightOfPairs rest)

end

mutual

/-- The most nodes of `|` on one way down. -/
def alternations : Expr → Nat
  | ident _ _ | dotted _ _ | atom _ _ | int _ _ | str _ _ => 0
  | list items _ | tuple items _ | call _ items _ => alternationsOfAll items
  | typed lhs rhs _ => max lhs.alternations rhs.alternations
  | alt lhs rhs _ => max lhs.alternations rhs.alternations + 1
  | map _ pairs _ | keyword pairs _ => alternationsOfPairs pairs

def alternationsOfAll : List Expr → Nat
  | [] => 0
  | e :: es => max e.alternations (alternationsOfAll es)

def alternationsOfPairs : List (Ident × Expr) → Nat
  | [] => 0
  | (_, value) :: rest => max value.alternations (alternationsOfPairs rest)

end

/-- On every way down there are at most three nodes for each level, beside those of `|`, and at most
`pipes` of those. -/
structure Shallow (pipes : Nat) (e : Expr) : Prop where
  height : e.height + 1 ≤ 3 * e.levels + e.alternations
  alternations : e.alternations ≤ pipes

theorem Shallow.mono {m n : Nat} {e : Expr} (h : Shallow m e) (hmn : m ≤ n) : Shallow n e :=
  ⟨h.height, Nat.le_trans h.alternations hmn⟩

theorem shallow_keyword {n : Nat} {pairs : List (Ident × Expr)}
    (h : heightOfPairs pairs + 2 ≤ 3 * levelsOfPairs pairs + alternationsOfPairs pairs ∧
      alternationsOfPairs pairs ≤ n) (span : Span) : Shallow n (.keyword pairs span) := by
  constructor
  all_goals
    simp only [Expr.height, levels, Expr.alternations]
    omega

theorem ofAll_le {n : Nat} {es : List Expr} (h : ∀ e ∈ es, Shallow n e) :
    heightOfAll es + 1 ≤ max 1 (3 * levelsOfAll es + alternationsOfAll es) ∧
      alternationsOfAll es ≤ n := by
  induction es with
  | nil => exact ⟨Nat.le_refl 1, Nat.zero_le n⟩
  | cons e es ih =>
    obtain ⟨he, hes⟩ := List.forall_mem_cons.mp h
    have := ih hes
    have := he.height
    have := he.alternations
    simp only [heightOfAll, levelsOfAll, alternationsOfAll]
    omega

end Expr

namespace Grammar
open Token (Kind)
open NativeInterface.Expr

/-! A level adds at most three nodes to a way down, beside those of `|`: one of `::`, one with
brackets and one of keywords. On the innermost level only a leaf is left of them. Every node of `|`
is written with a token of its own. -/

mutual

theorem IsExpr.height_le {ks : List Kind} {e : Expr} :
    IsExpr false ks e →
      e.height + 2 ≤ 3 * e.levels + e.alternations ∧ e.alternations ≤ ks.count .pipe
  | .plain h => by
    have := h.height_le
    have := h.levels_pos
    omega
  | .typed h h' => by
    have := h.height_le
    have := h'.height_le
    have := h'.levels_pos
    simp only [height, levels, alternations, List.count_append, List.count_cons]
    omega

theorem IsAlt.height_le {ks : List Kind} {e : Expr} :
    IsAlt false ks e →
      e.height + 3 ≤ max 4 (3 * e.levels) + e.alternations ∧ e.alternations ≤ ks.count .pipe
  | .plain h => h.height_le
  | .alt h h' => by
    have := h.height_le
    have := h'.height_le
    simp only [height, levels, alternations, List.count_append, List.count_cons_self]
    omega

theorem IsPrimary.height_le {ks : List Kind} {e : Expr} :
    IsPrimary false ks e →
      e.height + 3 ≤ max 4 (3 * e.levels) + e.alternations ∧ e.alternations ≤ ks.count .pipe
  | .ident | .atom | .int | .str | .dotted _ => ⟨Nat.le_refl 4, Nat.zero_le _⟩
  | .call h | .list h | .tuple h => by
    have := ofAll_le h.shallow
    simp only [height, levels, alternations, List.count_append, List.count_cons]
    omega
  | .map _ h => by
    have := h.height_le
    simp only [height, levels, alternations, List.count_append, List.count_cons]
    omega

theorem IsEntries.height_le {ks : List Kind} {pairs : List (Ident × Expr)} :
    IsEntries false ks pairs →
      heightOfPairs pairs + 1 ≤ max 1 (3 * levelsOfPairs pairs + alternationsOfPairs pairs) ∧
        alternationsOfPairs pairs ≤ ks.count .pipe
  | .none => ⟨Nat.le_refl 1, Nat.zero_le _⟩
  | .some h => by
    have := h.height_le
    omega

theorem IsExprs.shallow {ks : List Kind} {es : List Expr} :
    IsExprs false ks es → ∀ e ∈ es, Shallow (ks.count .pipe) e
  | .one h => by
    have := h.height_le
    refine List.forall_mem_singleton.mpr ⟨?_, ?_⟩ <;> omega
  | .cons h h' => by
    have := h.height_le
    rw [List.count_append]
    refine List.forall_mem_cons.mpr ⟨⟨?_, ?_⟩, fun e he => (h'.shallow e he).mono ?_⟩
    · omega
    · omega
    · exact Nat.le_trans List.count_le_count_cons (Nat.le_add_left ..)

theorem IsPairs.height_le {ks : List Kind} {pairs : List (Ident × Expr)} :
    IsPairs false ks pairs →
      heightOfPairs pairs + 2 ≤ 3 * levelsOfPairs pairs + alternationsOfPairs pairs ∧
        alternationsOfPairs pairs ≤ ks.count .pipe
  | .one h => by
    have := h.height_le
    simp only [heightOfPairs, levelsOfPairs, alternationsOfPairs, List.count_cons]
    omega
  | .cons h h' => by
    have := h.height_le
    have := h'.height_le
    simp only [heightOfPairs, levelsOfPairs, alternationsOfPairs, List.count_append,
      List.count_cons]
    omega

theorem IsPayload.shallow {ks : List Kind} {es : List Expr} :
    IsPayload false ks es → ∀ e ∈ es, Shallow (ks.count .pipe) e
  | .exprs h => h.shallow
  | .comma h => fun e he => (h.shallow e he).mono ((List.sublist_append_left ..).count_le _)
  | .exprsPairs h h' => by
    rw [List.count_append]
    refine List.forall_mem_append.mpr ⟨fun e he => (h.shallow e he).mono (Nat.le_add_right ..),
      List.forall_mem_singleton.mpr ((shallow_keyword h'.height_le _).mono ?_)⟩
    exact Nat.le_trans List.count_le_count_cons (Nat.le_add_left ..)
  | .pairs h => List.forall_mem_singleton.mpr (shallow_keyword h.height_le _)

theorem IsItems.shallow {ks : List Kind} {es : List Expr} :
    IsItems false ks es → ∀ e ∈ es, Shallow (ks.count .pipe) e
  | .none => fun _ he => (List.not_mem_nil he).elim
  | .some h => h.shallow

end

end Grammar

/-! ## Lines -/

namespace Parser
open Token (Kind)
open Grammar

/-- The tokens of `|` up to the end of the line. -/
def pipes (ts : List Token) : Nat :=
  ((ts.takeWhile fun t => !t.kind.endsLine).map (·.kind)).count .pipe

theorem pipes_of_reads {ahead rest : List Token} {ks : List Kind} (h : Reads ahead ks rest)
    (hks : InLine ks) : pipes ahead = ks.count .pipe + pipes rest := by
  obtain ⟨front, rfl, rfl⟩ := h
  have hfront : ∀ t ∈ front, !t.kind.endsLine := by
    intro t ht
    rw [hks t.kind (List.mem_map_of_mem ht)]
    rfl
  rw [pipes, List.takeWhile_append_of_pos hfront, List.map_append, List.count_append, pipes]

theorem pipes_le {ahead rest : List Token} {ks : List Kind} (h : Reads ahead ks rest)
    (hks : InLine ks) : pipes rest ≤ pipes ahead := by
  have := pipes_of_reads h hks
  omega

end Parser

/-- What is read has no more than three nodes on a way down for each level, beside those of `|`, and
no more of these than its line has tokens of `|`. -/
theorem Parsed.height_le {ts : List Token} {d : Declaration} {e : Expr}
    (hd : d ∈ (ofTokens ts).declarations) (he : e ∈ d.payload) :
    e.height ≤ 3 * Parser.maxNesting + e.alternations ∧
      ∃ ahead, ahead <:+ ts ∧ e.alternations ≤ Parser.pipes ahead := by
  obtain ⟨ks, hderives, hlevels, ahead, rest, hahead, hreads⟩ := derives_of_mem_lines hd
  have hline := Parser.pipes_of_reads hreads hderives.inLine
  obtain ⟨name, place, es, span, ls, rfl, rfl, hitems⟩ := hderives.items
  have hshallow := hitems.shallow e he
  have hlevel : e.levels ≤ Parser.maxNesting := Nat.le_trans (Expr.levels_le_of_mem he) hlevels
  refine ⟨by have := hshallow.height; omega, ahead, hahead.trans (List.dropWhile_suffix _), ?_⟩
  have hcount : ls.count .pipe ≤ (Token.Kind.identifier name :: ls).count .pipe :=
    List.count_le_count_cons
  have := hshallow.alternations
  omega

/-! ## Passes over trees -/

namespace Expr

/-- The surface form of an expression, by calls of which at most so many are inside each other. It
has none if it needs more of them. -/
def textWithin : Nat → Expr → Option String
  | 0, _ => none
  | _ + 1, ident name _ => some name
  | _ + 1, dotted parts _ => some (Text.join "." parts)
  | _ + 1, atom name _ => some (":" ++ name)
  | _ + 1, int value _ => some (Text.signedDecimal value)
  | _ + 1, str value _ => some (Text.quoted value)
  | calls + 1, list items _ => do
    let found ← items.mapM (textWithin calls)
    some ("[" ++ Text.join ", " found ++ "]")
  | calls + 1, tuple items _ => do
    let found ← items.mapM (textWithin calls)
    some ("\x7b" ++ Text.join ", " found ++ "\x7d")
  | calls + 1, call name args _ => do
    let found ← args.mapM (textWithin calls)
    some (name.name ++ "(" ++ Text.join ", " found ++ ")")
  | calls + 1, typed lhs rhs _ => do
    let left ← textWithin calls lhs
    let right ← textWithin calls rhs
    some (left ++ " :: " ++ right)
  | calls + 1, alt lhs rhs _ => do
    let left ← textWithin calls lhs
    let right ← textWithin calls rhs
    some (left ++ " | " ++ right)
  | calls + 1, map name entries _ => do
    let found ← entries.mapM fun p => (textWithin calls p.2).map (p.1.name ++ ": " ++ ·)
    some ("%" ++ Text.join "." name ++ "\x7b" ++ Text.join ", " found ++ "\x7d")
  | calls + 1, keyword pairs _ => do
    let found ← pairs.mapM fun p => (textWithin calls p.2).map (p.1.name ++ ": " ++ ·)
    some (Text.join ", " found)

/-- The alternatives of an expression, by calls of which at most so many are inside each other. -/
def alternativesWithin : Nat → Expr → Option (List Expr)
  | 0, _ => none
  | calls + 1, alt lhs rhs _ => do
    let left ← alternativesWithin calls lhs
    let right ← alternativesWithin calls rhs
    some (left ++ right)
  | _ + 1, e => some [e]

section
variable {calls : Nat}
  (h : ∀ e : Expr, textWithin calls e = if e.height ≤ calls then some e.text else none)
include h

theorem mapM_textWithin (es : List Expr) :
    es.mapM (textWithin calls) = if heightOfAll es ≤ calls then some (texts es) else none := by
  induction es with
  | nil => simp [heightOfAll, texts]
  | cons e es ih =>
    rw [List.mapM_cons, h, ih, heightOfAll, texts]
    simp only [Nat.max_le]
    by_cases he : e.height ≤ calls
    · by_cases hes : heightOfAll es ≤ calls <;> simp [he, hes]
    · simp [he]

theorem mapM_pairTextWithin (pairs : List (Ident × Expr)) :
    pairs.mapM (fun p => (textWithin calls p.2).map (p.1.name ++ ": " ++ ·)) =
      if heightOfPairs pairs ≤ calls then some (pairTexts pairs) else none := by
  induction pairs with
  | nil => simp [heightOfPairs, pairTexts]
  | cons p pairs ih =>
    obtain ⟨key, value⟩ := p
    rw [List.mapM_cons, h, ih, heightOfPairs, pairTexts]
    simp only [Nat.max_le]
    by_cases he : value.height ≤ calls
    · by_cases hes : heightOfPairs pairs ≤ calls <;> simp [he, hes]
    · simp [he]

end

/-- The calls that write an expression nest as deep as the expression is high. -/
theorem textWithin_eq (calls : Nat) (e : Expr) :
    textWithin calls e = if e.height ≤ calls then some e.text else none := by
  induction calls generalizing e with
  | zero =>
    have hpos : ¬e.height ≤ 0 := by cases e <;> simp [height]
    rw [textWithin, if_neg hpos]
  | succ calls ih =>
    cases e with
    | ident | dotted | atom | int | str => simp [textWithin, height, text]
    | list items | tuple items | call _ items =>
      rw [textWithin, mapM_textWithin ih, height, text]
      by_cases hall : heightOfAll items ≤ calls <;> simp [hall]
    | typed lhs rhs | alt lhs rhs =>
      rw [textWithin, ih, ih, height, text]
      simp only [Nat.add_le_add_iff_right, Nat.max_le]
      by_cases hl : lhs.height ≤ calls
      · by_cases hr : rhs.height ≤ calls <;> simp [hl, hr]
      · simp [hl]
    | map _ pairs | keyword pairs =>
      rw [textWithin, mapM_pairTextWithin ih, height, text]
      by_cases hall : heightOfPairs pairs ≤ calls <;> simp [hall]

theorem alternativesWithin_of_le {calls : Nat} {e : Expr} (h : e.height ≤ calls) :
    alternativesWithin calls e = some e.alternatives := by
  induction calls generalizing e with
  | zero => cases e <;> simp [height] at h
  | succ calls ih =>
    cases e with
    | alt lhs rhs =>
      rw [height] at h
      rw [alternativesWithin, ih (by omega), ih (by omega), alternatives]
      rfl
    | _ => rfl

end Expr

/-! ## Readers -/

namespace Parser
open Token (Kind)
open Grammar

section
variable {read read' : Reader Expr} {n p : Nat} (hsound : Sound read' n)
  (hread : ∀ d : Cursor, pipes d.ahead ≤ p → read d = read' d) {c : Cursor}
include hsound hread

theorem pairs_congr (close : Kind) (hc : pipes c.ahead ≤ p) :
    pairs read close c = pairs read' close c := by
  fun_induction pairs read' close c with
  | case1 c name span d hnext ih =>
    have hd := pipes_of_reads (Cursor.reads_of_next hnext) (by simp [Kind.endsLine])
    rw [pairs, hnext]
    dsimp only
    rw [hread d (by omega)]
    apply Outcome.bind_congr
    rintro ⟨value, e⟩ hvalue
    obtain ⟨ks, hks, hexpr, -⟩ := hsound hvalue
    have he := pipes_of_reads hks hexpr.inLine
    dsimp only
    split
    · rfl
    split
    · rename_i f hcomma
      have hf : pipes f.val.ahead ≤ pipes e.val.ahead :=
        pipes_le (Cursor.reads_of_accept hcomma) (by simp [Kind.endsLine])
      rw [ih e f (by omega)]
    · rfl
  | case2 c hnext =>
    rw [pairs]
    split
    · rename_i hkey
      exact (hnext _ _ _ hkey).elim
    · rfl

theorem keywords_congr (close : Kind) (hc : pipes c.ahead ≤ p) :
    keywords read close c = keywords read' close c := by
  rw [keywords, keywords, pairs_congr hsound hread close hc]

theorem items_congr (close : Kind) (hc : pipes c.ahead ≤ p) :
    items read close c = items read' close c := by
  fun_induction items read' close c with
  | case1 c d hclose => rw [items, hclose]
  | case2 c hclose name hkey =>
    rw [items, hclose, hkey]
    dsimp only
    rw [keywords_congr hsound hread close hc]
  | case3 c hclose hkey ih =>
    rw [items, hclose]
    dsimp only
    split
    · rename_i hk
      exact (hkey _ hk).elim
    · rw [hread c hc]
      apply Outcome.bind_congr
      rintro ⟨e, d⟩ hvalue
      obtain ⟨ks, hks, hexpr, -⟩ := hsound hvalue
      have hd := pipes_of_reads hks hexpr.inLine
      dsimp only
      split
      · rename_i f hcomma
        have hf := pipes_of_reads (Cursor.reads_of_accept hcomma) (by simp [Kind.endsLine])
        rw [ih d f (by omega)]
      · rfl

theorem entries_congr (hc : pipes c.ahead ≤ p) : entries read c = entries read' c := by
  rw [entries, entries]
  split
  · rfl
  · rw [pairs_congr hsound hread .rbrace hc]

theorem primary_congr (hc : pipes c.ahead ≤ p) : primary read c = primary read' c := by
  rw [primary, primary]
  split
  · rfl
  · rename_i t d hnext
    have hd (hline : t.kind.endsLine = false) : pipes d.val.ahead ≤ p :=
      Nat.le_trans (pipes_le (Cursor.reads_of_next hnext) (by simp [hline])) hc
    cases hkind : t.kind with
    | identifier name =>
      dsimp only
      split
      · rename_i e hparen
        have he : pipes e.val.ahead ≤ pipes d.val.ahead :=
          pipes_le (Cursor.reads_of_accept hparen) (by simp [Kind.endsLine])
        rw [items_congr hsound hread .rparen (Nat.le_trans he (hd (by rw [hkind]; rfl)))]
      · rfl
    | lbracket =>
      dsimp only
      rw [items_congr hsound hread .rbracket (hd (by rw [hkind]; rfl))]
    | lbrace =>
      dsimp only
      rw [items_congr hsound hread .rbrace (hd (by rw [hkind]; rfl))]
    | percent =>
      dsimp only
      apply Outcome.bind_congr
      rintro ⟨name, e⟩ hname
      apply Outcome.bind_congr
      intro f hbrace
      obtain ⟨ks, hks, hname⟩ := dottedName_sound hname
      have he := pipes_le hks hname.inLine
      have hf := pipes_le (Cursor.reads_of_expect hbrace) (by simp [Kind.endsLine])
      rw [entries_congr hsound hread (Nat.le_trans hf (Nat.le_trans he (hd (by rw [hkind]; rfl))))]
    | _ => rfl
end

theorem Cursor.lt_of_later {c : Cursor} (d : c.Later) (e : d.val.Later) (f : e.val.Later) :
    f.val.ahead.length < c.ahead.length := by
  have := d.2
  have := e.2
  have := f.2
  omega

mutual

/-- The reader of expressions, by calls of which at most so many are inside each other. Only the
calls of the two readers that call themselves are counted, since no more than four others stand
between two of these. What a call too many does is given from outside. -/
def exprWithin (beyond : Reader Expr) : Nat → Nat → Reader Expr
  | 0, _, c => beyond c
  | _ + 1, 0, c => c.fault .tooDeep
  | calls + 1, level + 1, c => do
    let (lhs, d) ← alternativesWithin beyond calls level c
    match d.val.accept .colonColon with
    | some e => do
      let (rhs, f) ← exprWithin beyond calls level e
      .ok (.typed lhs rhs (lhs.span.merge rhs.span), ⟨f, Cursor.lt_of_later d e f⟩)
    | none => .ok (lhs, d)

def alternativesWithin (beyond : Reader Expr) : Nat → Nat → Reader Expr
  | 0, _, c => beyond c
  | calls + 1, level, c => do
    let (lhs, d) ← primary (exprWithin beyond calls level) c
    match d.val.accept .pipe with
    | some e => do
      let (rhs, f) ← alternativesWithin beyond calls level e
      .ok (.alt lhs rhs (lhs.span.merge rhs.span), ⟨f, Cursor.lt_of_later d e f⟩)
    | none => .ok (lhs, d)

end

/-- Two calls for each level are enough, and one for each `|` of the line. -/
theorem within_eq (beyond : Reader Expr) (calls level : Nat) (c : Cursor) :
    (2 * level + 1 + pipes c.ahead ≤ calls →
      exprWithin beyond calls level c = expr level c) ∧
    (2 * level + 2 + pipes c.ahead ≤ calls →
      alternativesWithin beyond calls level c = alternatives (expr level) c) := by
  induction calls generalizing level c with
  | zero => exact ⟨fun h => by omega, fun h => by omega⟩
  | succ calls ih =>
    refine ⟨fun hcalls => ?_, fun hcalls => ?_⟩
    · cases level with
      | zero => rfl
      | succ level =>
        rw [exprWithin, expr, (ih level c).2 (by omega)]
        apply Outcome.bind_congr
        rintro ⟨lhs, d⟩ hlhs
        obtain ⟨ks, hks, halt, -⟩ := alternatives_sound (expr_sound level) hlhs
        have hd := pipes_le hks halt.inLine
        dsimp only
        cases hcolons : d.val.accept .colonColon with
        | none => rfl
        | some e =>
          have he : pipes e.val.ahead ≤ pipes d.val.ahead :=
            pipes_le (Cursor.reads_of_accept hcolons) (by simp [Kind.endsLine])
          dsimp only
          rw [(ih level e).1 (by omega)]
    · have hread (d : Cursor) (hd : pipes d.ahead ≤ pipes c.ahead) :
          exprWithin beyond calls level d = expr level d := (ih level d).1 (by omega)
      rw [alternativesWithin, alternatives,
        primary_congr (expr_sound level) hread (Nat.le_refl _)]
      apply Outcome.bind_congr
      rintro ⟨lhs, d⟩ hlhs
      obtain ⟨ks, hks, hprimary, -⟩ := primary_sound (expr_sound level) hlhs
      have hd := pipes_le hks hprimary.inLine
      dsimp only
      cases hpipe : d.val.accept .pipe with
      | none => rfl
      | some e =>
        have he : pipes d.val.ahead = [Kind.pipe].count .pipe + pipes e.val.ahead :=
          pipes_of_reads (Cursor.reads_of_accept hpipe) (by simp [Kind.endsLine])
        rw [List.count_singleton_self] at he
        dsimp only
        rw [(ih level e).2 (by omega)]

end Parser

/-! ## Lines with any number of alternatives -/

namespace Parsed
open Token (Kind)
open Grammar NativeInterface.Parser

/-- `a | a | … | a`, with so many `|`. -/
def chain : Nat → List Kind
  | 0 => [.identifier "a"]
  | n + 1 => .identifier "a" :: .pipe :: chain n

def chainExpr : Nat → Expr
  | 0 => .ident "a" {}
  | n + 1 => .alt (.ident "a" {}) (chainExpr n) {}

/-- The line `f a | a | … | a`, with so many `|`. -/
def chainLine (n : Nat) : List Token := tokensOf (.identifier "f" :: chain n) ++ [⟨.eof, {}⟩]

theorem isExpr_chain (n : Nat) : IsExpr false (chain n) (chainExpr n) := by
  refine .plain ?_
  induction n with
  | zero => exact .plain .ident
  | succ n ih => exact .alt .ident ih

theorem unplaced_chainExpr (n : Nat) : (chainExpr n).unplaced = chainExpr n := by
  induction n with
  | zero => rfl
  | succ n ih => rw [chainExpr, Expr.unplaced, ih, Expr.unplaced]

theorem levels_chainExpr (n : Nat) : (chainExpr n).levels = 1 := by
  induction n with
  | zero => rfl
  | succ n ih => rw [chainExpr, Expr.levels, ih, Expr.levels, Nat.max_self]

theorem height_chain {n : Nat} {e : Expr} (h : e.unplaced = chainExpr n) : e.height = n + 1 := by
  induction n generalizing e with
  | zero => cases e <;> cases h; rfl
  | succ n ih =>
    cases e with
    | alt lhs rhs =>
      obtain ⟨hlhs, hrhs, -⟩ := Expr.alt.inj h
      have hleft : lhs.height = 1 := by cases lhs <;> cases hlhs; rfl
      rw [Expr.height, hleft, ih hrhs]
      omega
    | _ => cases h

theorem alternativesWithin_chain {n : Nat} {e : Expr} (h : e.unplaced = chainExpr n) {calls : Nat}
    (hcalls : calls ≤ n) : e.alternativesWithin calls = none := by
  induction calls generalizing n e with
  | zero => rfl
  | succ calls ih =>
    obtain _ | n := n
    · omega
    cases e with
    | alt lhs rhs =>
      obtain ⟨-, hrhs, -⟩ := Expr.alt.inj h
      rw [Expr.alternativesWithin, ih hrhs (by omega)]
      cases lhs.alternativesWithin calls <;> rfl
    | _ => cases h

section
variable {n : Nat} {c : Cursor} {rest : List Token} (hc : Reads c.ahead (chain n) rest)
  {calls : Nat} (hcalls : calls ≤ n) (level : Nat)
include hc hcalls

theorem alternativesWithin_error :
    ∃ fault, alternativesWithin (·.fault .tooDeep) calls level c = .error fault := by
  induction calls generalizing n c with
  | zero => exact ⟨_, rfl⟩
  | succ calls ih =>
    obtain _ | n := n
    · omega
    obtain ⟨span, d, hnext, hd⟩ := Cursor.exists_next hc
    obtain ⟨e, hpipe, he⟩ := Cursor.exists_accept hd
    have hparen : d.val.accept .lparen = none :=
      Cursor.accept_eq_none (by rw [Cursor.kind_of_reads hd]; exact Kind.noConfusion)
    obtain ⟨fault, hfault⟩ := ih he (by omega)
    refine ⟨fault, ?_⟩
    rw [alternativesWithin, primary, hnext]
    dsimp only
    rw [hparen]
    dsimp only [bind, Except.bind]
    rw [hpipe]
    dsimp only
    rw [hfault]

theorem exprWithin_error :
    ∃ fault, exprWithin (·.fault .tooDeep) calls (level + 1) c = .error fault := by
  obtain _ | calls := calls
  · exact ⟨_, rfl⟩
  obtain ⟨fault, hfault⟩ := alternativesWithin_error hc (Nat.le_of_succ_le hcalls) level
  refine ⟨fault, ?_⟩
  rw [exprWithin, hfault]
  rfl

end

theorem reads_chainLine (n : Nat) :
    Reads (chainLine n) (.identifier "f" :: chain n) [⟨.eof, {}⟩] :=
  ⟨_, rfl, by simp [tokensOf, Function.comp_def]⟩

theorem ofTokens_chainLine (n : Nat) :
    ∃ d e, ofTokens (chainLine n) = ⟨[d], []⟩ ∧ d.payload = [e] ∧ e.unplaced = chainExpr n := by
  have hderives : IsDeclaration false (.identifier "f" :: chain n) ⟨⟨"f", {}⟩, [chainExpr n], {}⟩ :=
    .payload (.exprs (.one (isExpr_chain n)))
  have hlevels : Declaration.levels ⟨⟨"f", {}⟩, [chainExpr n], {}⟩ ≤ maxNesting := by
    simp [Declaration.levels, Expr.levelsOfAll, levels_chainExpr, maxNesting]
  obtain ⟨d, c, hline, -, hd⟩ := line_complete hderives hlevels
    (c := ⟨.point 1 1, chainLine n⟩) (reads_chainLine n) rfl
  have hends : ∀ t ∈ tokensOf (.identifier "f" :: chain n), t.kind.endsLine = false := by
    intro t ht
    obtain ⟨k, hk, rfl⟩ := List.mem_map.mp ht
    exact hderives.inLine k hk
  obtain ⟨e, hpayload, he⟩ : ∃ e, d.payload = [e] ∧ e.unplaced = chainExpr n := by
    have hes : Expr.unplacedAll d.payload = [(chainExpr n).unplaced] :=
      congrArg Declaration.payload hd
    rw [Expr.unplacedAll_eq_map] at hes
    obtain ⟨e, hpayload, he⟩ := List.map_eq_singleton_iff.mp hes
    exact ⟨e, hpayload, he.trans (unplaced_chainExpr n)⟩
  exact ⟨d, e, (ofTokens_of_line (List.cons_ne_nil _ _) hends rfl).1 d c hline, hpayload, he⟩

/-- No number bounds the recursion for all lines. -/
theorem recursion_unbounded (bound : Nat) :
    ∃ d e, ofTokens (chainLine bound) = ⟨[d], []⟩ ∧ d.payload = [e] ∧ bound < e.height ∧
      e.textWithin bound = none ∧ e.alternativesWithin bound = none ∧
      ∃ c : Cursor, c.ahead <:+ chainLine bound ∧
        ∃ beyond, exprWithin beyond bound maxNesting c ≠ expr maxNesting c := by
  obtain ⟨d, e, hfound, hpayload, he⟩ := ofTokens_chainLine bound
  have hheight := height_chain he
  obtain ⟨span, c, hnext, hc⟩ :=
    Cursor.exists_next (c := ⟨.point 1 1, chainLine bound⟩) (reads_chainLine bound)
  obtain ⟨fault, hfault⟩ := exprWithin_error hc (Nat.le_refl _) (maxNesting - 1)
  obtain ⟨found, rest, hread, -⟩ := expr_complete maxNesting (isExpr_chain bound)
    (by rw [levels_chainExpr]; decide) hc rfl
  refine ⟨d, e, hfound, hpayload, by omega, ?_, alternativesWithin_chain he (Nat.le_refl _), c.val,
    (Cursor.reads_of_next hnext).suffix, (·.fault .tooDeep), fun heq => ?_⟩
  · rw [Expr.textWithin_eq, if_neg (by omega)]
  · rw [hread] at heq
    cases hfault.symm.trans heq

/-! ## Bounds on recursion -/

/-- No line has more than `n` tokens of `|`. -/
def PipesWithin (n : Nat) (ts : List Token) : Prop := ∀ ahead, ahead <:+ ts → pipes ahead ≤ n

theorem pipesWithin_of_count {n : Nat} {ts : List Token} (h : (ts.map (·.kind)).count .pipe ≤ n) :
    PipesWithin n ts := by
  intro ahead hahead
  have hsublist := (List.takeWhile_sublist fun t : Token => !t.kind.endsLine).trans hahead.sublist
  exact Nat.le_trans ((hsublist.map _).count_le _) h

/-- What is found in a stream is no higher than `bound`. It is read with at most `bound` calls of
`expr` and `alternatives` inside each other; the other readers are not counted, and at most four of
their calls stand between two of these. It is written, and taken apart into alternatives, with at
most `bound` calls inside each other. -/
structure RecursionWithin (bound : Nat) (ts : List Token) : Prop where
  height : ∀ d ∈ (ofTokens ts).declarations, ∀ e ∈ d.payload, e.height ≤ bound
  read : ∀ c : Cursor, c.ahead <:+ ts → ∀ beyond,
    exprWithin beyond bound maxNesting c = expr maxNesting c
  text : ∀ d ∈ (ofTokens ts).declarations, ∀ e ∈ d.payload, e.textWithin bound = some e.text
  alternatives : ∀ d ∈ (ofTokens ts).declarations, ∀ e ∈ d.payload,
    e.alternativesWithin bound = some e.alternatives

/-- With at most `maxNesting` tokens of `|` in a line, `4 * maxNesting` bounds everything. -/
theorem recursion_bounded {n bound : Nat} {ts : List Token} (h : PipesWithin n ts)
    (hbound : 3 * maxNesting + n ≤ bound) : RecursionWithin bound ts := by
  have hheight : ∀ d ∈ (ofTokens ts).declarations, ∀ e ∈ d.payload, e.height ≤ bound := by
    intro d hd e he
    obtain ⟨hheight, ahead, hahead, hpipes⟩ := height_le hd he
    have := h ahead hahead
    omega
  refine ⟨hheight, fun c hc beyond => ?_, fun d hd e he => ?_, fun d hd e he => ?_⟩
  · have := h c.ahead hc
    have : 1 ≤ maxNesting := by decide
    exact (within_eq beyond bound maxNesting c).1 (by omega)
  · rw [Expr.textWithin_eq, if_pos (hheight d hd e he)]
  · exact Expr.alternativesWithin_of_le (hheight d hd e he)

theorem recursion_bounded_chain :
    PipesWithin maxNesting (chainLine 64) ∧ RecursionWithin (4 * maxNesting) (chainLine 64) ∧
      ∃ d e, ofTokens (chainLine 64) = ⟨[d], []⟩ ∧ d.payload = [e] ∧ e.height = 65 := by
  have hpipes : PipesWithin maxNesting (chainLine 64) := pipesWithin_of_count (by decide)
  obtain ⟨d, e, hfound, hpayload, he⟩ := ofTokens_chainLine 64
  exact ⟨hpipes, recursion_bounded hpipes (by decide), d, e, hfound, hpayload, height_chain he⟩

/-- A line of one level that is higher than `4 * maxNesting`, and with which nothing is done by so
few calls. -/
theorem recursion_exceeds_levels :
    (chainLine 256).getLast?.map (·.kind) = some .eof ∧ 4 * maxNesting = 256 ∧
      ∃ d e, ofTokens (chainLine 256) = ⟨[d], []⟩ ∧ d.payload = [e] ∧ 256 < e.height ∧
        e.textWithin 256 = none ∧ e.alternativesWithin 256 = none ∧
        ∃ c : Cursor, c.ahead <:+ chainLine 256 ∧
          ∃ beyond, exprWithin beyond 256 maxNesting c ≠ expr maxNesting c :=
  ⟨by rw [chainLine, List.getLast?_concat]; rfl, rfl, recursion_unbounded 256⟩

end Parsed

end NativeInterface
