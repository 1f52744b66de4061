import NativeInterface.Proofs.ParserComplete

/-!
# A line is read exactly if it derives

No line of kinds has two trees, so reading one gives its only tree up to places. A line without a
tree leaves one fault and no declaration.
-/

namespace NativeInterface
open Token (Kind)
open Grammar NativeInterface.Parser

/-! ## One tree for each line -/

namespace Grammar

/-- Tokens of the given kinds, all at no place. -/
def tokensOf (ks : List Kind) : List Token := ks.map (⟨·, {}⟩)

theorem reads_tokensOf (ks : List Kind) : Reads (tokensOf ks) ks [] :=
  ⟨tokensOf ks, (List.append_nil _).symm, by simp [tokensOf, Function.comp_def]⟩

theorem IsItems.unique {ks : List Kind} {es es' : List Expr} (h : IsItems false ks es)
    (h' : IsItems false ks es') : Expr.unplacedAll es = Expr.unplacedAll es' := by
  let n := max (Expr.levelsOfAll es) (Expr.levelsOfAll es')
  let c : Cursor := ⟨{}, tokensOf (ks ++ [Kind.rbracket])⟩
  have hc : Reads c.ahead (ks ++ [Kind.rbracket]) [] := reads_tokensOf _
  obtain ⟨found, d, hread, -, hfound⟩ :=
    items_complete (expr_complete n) rfl h (Nat.le_max_left ..) hc
  obtain ⟨found', d', hread', -, hfound'⟩ :=
    items_complete (expr_complete n) rfl h' (Nat.le_max_right ..) hc
  rw [hread] at hread'
  cases hread'
  exact hfound.symm.trans hfound'

theorem IsDeclaration.unique {ks : List Kind} {d d' : Declaration} (h : IsDeclaration false ks d)
    (h' : IsDeclaration false ks d') : d.unplaced = d'.unplaced := by
  obtain ⟨name, place, es, span, ls, rfl, rfl, hes⟩ := h.items
  obtain ⟨name', place', es', span', ls', hks, rfl, hes'⟩ := h'.items
  cases hks
  simp [Declaration.unplaced, hes.unique hes']

end Grammar

/-! ## Lines -/

namespace Parser

theorem skipNewlines_of_ne {ts : List Token} (h : nextKind ts ≠ .newline) :
    skipNewlines ts = ts := by
  cases ts with
  | nil => rfl
  | cons t ts => exact List.dropWhile_cons_of_neg (by simpa [nextKind] using h)

theorem skipNewlines_cons {t : Token} (h : t.kind = .newline) (ts : List Token) :
    skipNewlines (t :: ts) = skipNewlines ts :=
  List.dropWhile_cons_of_pos (by simpa using h)

theorem nextLine_suffix (ts : List Token) : nextLine ts <:+ ts := by
  induction ts with
  | nil => exact List.suffix_refl _
  | cons t ts ih =>
    rw [nextLine]
    split
    · exact List.suffix_refl _
    split
    · exact (List.dropWhile_suffix _).trans (List.suffix_cons t ts)
    · exact ih.trans (List.suffix_cons t ts)

theorem nextLine_append {ts rest : List Token} (hline : ∀ t ∈ ts, t.kind.endsLine = false)
    (hrest : (nextKind rest).endsLine) : nextLine (ts ++ rest) = skipNewlines rest := by
  induction ts with
  | nil =>
    cases rest with
    | nil => rfl
    | cons t rest =>
      rw [List.nil_append, nextLine]
      split
      · rename_i heof
        rw [skipNewlines_of_ne (by simp [heof])]
      · rename_i heof
        have hnewline : t.kind = .newline := by
          rw [nextKind_cons] at hrest
          cases hk : t.kind <;> simp_all [Kind.endsLine]
        rw [if_pos hnewline, skipNewlines_cons hnewline]
  | cons t ts ih =>
    have ht := hline t List.mem_cons_self
    rw [List.cons_append, nextLine, if_neg (ne_of_endsLine ht rfl), if_neg (ne_of_endsLine ht rfl)]
    exact ih fun t' ht' => hline t' (List.mem_cons_of_mem _ ht')

/-- A reading without line ends in it that stops at the end of the line has read all of it. -/
theorem Reads.eq_of_inLine {ts rest : List Token} {stop : Token} {ks : List Kind}
    (h : Reads (ts ++ [stop]) ks rest) (hks : InLine ks) (hrest : (nextKind rest).endsLine)
    (hline : ∀ t ∈ ts, t.kind.endsLine = false) (hstop : stop.kind = .eof) :
    ks = ts.map (·.kind) ∧ rest = [stop] := by
  obtain ⟨front, hsplit, rfl⟩ := h
  rcases List.append_eq_append_iff.mp hsplit with ⟨as, rfl, hstop'⟩ | ⟨bs, rfl, rfl⟩
  · cases as with
    | nil => exact ⟨by simp, by simpa using hstop'.symm⟩
    | cons t as =>
      obtain ⟨rfl, -⟩ := List.cons.inj hstop'
      have ht := hks stop.kind (by simp)
      rw [hstop] at ht
      cases ht
  · cases bs with
    | nil => exact ⟨by simp, rfl⟩
    | cons t bs =>
      have ht := hline t (by simp)
      simp [nextKind, ht] at hrest

end Parser

/-! ## One line of tokens -/

namespace Parsed
section
variable {budget : Nat} (hbudget : budget ≠ 0) {ts : List Token} (hts : nextKind ts ≠ .eof)
include hbudget hts

theorem lines_of_ok {d : Declaration} {e : Cursor.Later ⟨.point 1 1, ts⟩}
    (h : line ⟨.point 1 1, ts⟩ = .ok (d, e)) :
    lines budget ts =
      { lines budget (skipNewlines e.val.ahead) with
        declarations := d :: (lines budget (skipNewlines e.val.ahead)).declarations } := by
  cases ts with
  | nil => exact absurd rfl hts
  | cons t ts =>
    rw [nextKind_cons] at hts
    rw [lines, dif_neg (not_or.mpr ⟨hts, hbudget⟩), h]

theorem lines_of_error {fault : Located ParseFault}
    (h : line ⟨.point 1 1, ts⟩ = .error fault) :
    lines budget ts =
      { lines (budget - 1) (nextLine ts) with
        faults := fault :: (lines (budget - 1) (nextLine ts)).faults } := by
  cases ts with
  | nil => exact absurd rfl hts
  | cons t ts =>
    rw [nextKind_cons] at hts
    rw [lines, dif_neg (not_or.mpr ⟨hts, hbudget⟩), h]

end

theorem lines_of_eof {stop : Token} (h : stop.kind = .eof) {ts : List Token} (budget : Nat) :
    lines budget (stop :: ts) = {} := by
  rw [lines, dif_pos (.inl h)]

/-- Without a budget no line is read. -/
theorem lines_zero (ts : List Token) : lines 0 ts = {} := by
  cases ts with
  | nil => rw [lines]
  | cons t ts => rw [lines, dif_pos (.inr rfl)]

section
variable {ts : List Token} {stop : Token} (hne : ts ≠ [])
  (hline : ∀ t ∈ ts, t.kind.endsLine = false) (hstop : stop.kind = .eof)
include hne hline hstop

/-- A line is read once, and nothing behind it. -/
theorem ofTokens_of_line :
    (∀ d e, line ⟨.point 1 1, ts ++ [stop]⟩ = .ok (d, e) →
      ofTokens (ts ++ [stop]) = ⟨[d], []⟩) ∧
    ∀ fault, line ⟨.point 1 1, ts ++ [stop]⟩ = .error fault →
      ofTokens (ts ++ [stop]) = ⟨[], [fault]⟩ := by
  have hfirst : (nextKind (ts ++ [stop])).endsLine = false := by
    obtain ⟨t, ts, rfl⟩ := List.exists_cons_of_ne_nil hne
    exact hline t List.mem_cons_self
  have hskip : skipNewlines (ts ++ [stop]) = ts ++ [stop] :=
    skipNewlines_of_ne (ne_of_endsLine hfirst rfl)
  have heof : nextKind (ts ++ [stop]) ≠ .eof := ne_of_endsLine hfirst rfl
  have hlast : ∀ budget, lines budget [stop] = {} := lines_of_eof hstop
  have hstop' : skipNewlines [stop] = [stop] := skipNewlines_of_ne (by simp [nextKind, hstop])
  rw [ofTokens, hskip]
  refine ⟨fun d e hread => ?_, fun fault hread => ?_⟩
  · obtain ⟨ks, hks, hderives, -, hend⟩ := line_sound hread
    rw [Cursor.kind_eq] at hend
    obtain ⟨-, hrest⟩ := hks.eq_of_inLine hderives.inLine hend hline hstop
    rw [lines_of_ok (by decide) heof hread, hrest, hstop', hlast]
  · rw [lines_of_error (by decide) heof hread,
      nextLine_append hline (by rw [nextKind_cons, hstop]; rfl), hstop', hlast]

end

/-- A line is read exactly if it derives from the grammar within the nesting bound. The declaration
read is its only tree, up to places. Any other line leaves one fault and no declaration. -/
theorem ofTokens_iff_grammar (ts : List Token) (stop : Token) (hne : ts ≠ [])
    (hline : ∀ t ∈ ts, t.kind.endsLine = false) (hstop : stop.kind = .eof) :
    ((∃ d, ofTokens (ts ++ [stop]) = ⟨[d], []⟩) ↔
        ∃ d, IsDeclaration false (ts.map (·.kind)) d ∧ d.levels ≤ maxNesting) ∧
      (∀ d, ofTokens (ts ++ [stop]) = ⟨[d], []⟩ →
        IsDeclaration false (ts.map (·.kind)) d ∧ d.levels ≤ maxNesting ∧
          ∀ d', IsDeclaration false (ts.map (·.kind)) d' → d'.unplaced = d.unplaced) ∧
      ((¬∃ d, IsDeclaration false (ts.map (·.kind)) d ∧ d.levels ≤ maxNesting) →
        ∃ fault, ofTokens (ts ++ [stop]) = ⟨[], [fault]⟩) := by
  obtain ⟨hok, herror⟩ := ofTokens_of_line hne hline hstop
  let c : Cursor := ⟨.point 1 1, ts ++ [stop]⟩
  match hread : line c with
  | .ok (d, e) =>
    obtain ⟨ks, hks, hderives, hlevels, hkind⟩ := line_sound hread
    rw [Cursor.kind_eq] at hkind
    obtain ⟨rfl, -⟩ := hks.eq_of_inLine hderives.inLine hkind hline hstop
    rw [hok d e hread]
    refine ⟨⟨fun _ => ⟨d, hderives, hlevels⟩, fun _ => ⟨d, rfl⟩⟩, ?_, ?_⟩
    · rintro d' ⟨⟩
      exact ⟨hderives, hlevels, fun d' h => h.unique hderives⟩
    · intro hnone
      exact absurd ⟨d, hderives, hlevels⟩ hnone
  | .error fault =>
    have hnone : ¬∃ d, IsDeclaration false (ts.map (·.kind)) d ∧ d.levels ≤ maxNesting := by
      rintro ⟨d, hderives, hlevels⟩
      have hc : Reads c.ahead (ts.map (·.kind)) [stop] := ⟨ts, rfl, rfl⟩
      have hend : (nextKind [stop]).endsLine := by simp [hstop, Kind.endsLine]
      obtain ⟨d', e, hread', -, -⟩ := line_complete hderives hlevels hc hend
      rw [hread] at hread'
      cases hread'
    rw [herror fault hread]
    refine ⟨⟨?_, fun hd => absurd hd hnone⟩, ?_, fun _ => ⟨fault, rfl⟩⟩
    · rintro ⟨d, ⟨⟩⟩
    · rintro d ⟨⟩

/-- `spec f(a :: int, k: [1,]) | :x,` is read as its only tree. -/
theorem ofTokens_iff_grammar_spec :
    let ts := tokensOf [.identifier "spec", .identifier "f", .lparen, .identifier "a", .colonColon,
      .identifier "int", .comma, .key "k", .lbracket, .integer 1, .comma, .rbracket, .rparen, .pipe,
      .atom "x", .comma]
    (ts ≠ [] ∧ ∀ t ∈ ts, t.kind.endsLine = false) ∧
      ∃ d, ofTokens (ts ++ [⟨.eof, {}⟩]) = ⟨[d], []⟩ ∧
        d.unplaced = ⟨⟨"spec", {}⟩, [.alt (.call ⟨"f", {}⟩
          [.typed (.ident "a" {}) (.ident "int" {}) {},
            .keyword [(⟨"k", {}⟩, .list [.int 1 {}] {})] {}] {}) (.atom "x" {}) {}], {}⟩ := by
  intro ts
  have hts : ts ≠ [] ∧ ∀ t ∈ ts, t.kind.endsLine = false := by decide
  have harg : IsExpr false ([Kind.identifier "a"] ++ Kind.colonColon :: [Kind.identifier "int"])
      (.typed (.ident "a" {}) (.ident "int" {}) {}) :=
    .typed (.plain .ident) (.plain (.plain .ident))
  have hlist : IsExpr false (.lbracket :: ([Kind.integer 1, Kind.comma] ++ [Kind.rbracket]))
      (.list [.int 1 {}] {}) :=
    .plain (.plain (.list (.cons (.plain (.plain .int)) .none)))
  have hcall : IsPrimary false (.identifier "f" :: .lparen :: ([Kind.identifier "a",
      Kind.colonColon, Kind.identifier "int", Kind.comma, Kind.key "k", Kind.lbracket,
      Kind.integer 1, Kind.comma, Kind.rbracket] ++ [Kind.rparen]))
      (.call ⟨"f", {}⟩ [.typed (.ident "a" {}) (.ident "int" {}) {},
        .keyword [(⟨"k", {}⟩, .list [.int 1 {}] {})] {}] {}) :=
    .call (.cons harg (.some (.pairs (.one hlist))))
  have hspec : IsDeclaration false (.identifier "spec" :: _)
      ⟨⟨"spec", {}⟩, [.alt _ (.atom "x" {}) {}], {}⟩ :=
    .payload (.comma (.one (.plain (.alt hcall (.plain .atom)))))
  obtain ⟨hread, htree, -⟩ := ofTokens_iff_grammar ts ⟨.eof, {}⟩ hts.1 hts.2 rfl
  obtain ⟨d, hd⟩ := hread.mpr ⟨_, hspec, by decide⟩
  exact ⟨hts, d, hd, ((htree d hd).2.2 _ hspec).symm⟩

/-- Read with its optional parts left out one by one, the rule for items derives `f [, k: 1]`, which
is not read. -/
theorem leading_comma_not_read :
    let ts := tokensOf [.identifier "f", .lbracket, .comma, .key "k", .integer 1, .rbracket]
    (ts ≠ [] ∧ ∀ t ∈ ts, t.kind.endsLine = false) ∧
      (∃ d, IsDeclaration true (ts.map (·.kind)) d ∧ d.levels ≤ maxNesting) ∧
      ofTokens (ts ++ [⟨.eof, {}⟩]) = ⟨[], [⟨.expectedExpression .comma, {}⟩]⟩ := by
  have hpairs : IsPairs true [.key "k", .integer 1] [(⟨"k", {}⟩, .int 1 {})] :=
    .one (.plain (.plain .int))
  have hlist : IsExpr true
      (.lbracket :: (Kind.comma :: [Kind.key "k", Kind.integer 1] ++ [Kind.rbracket]))
      (.list [.keyword [(⟨"k", {}⟩, .int 1 {})] {}] {}) :=
    .plain (.plain (.list (.leading rfl hpairs)))
  refine ⟨by decide, ⟨⟨⟨"f", {}⟩, _, {}⟩, .payload (.exprs (.one hlist)), by decide⟩, by cbv⟩

end Parsed

end NativeInterface
