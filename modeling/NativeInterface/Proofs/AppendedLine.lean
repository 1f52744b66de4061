import NativeInterface.Proofs.FreeLayout
import NativeInterface.Proofs.Nesting
import NativeInterface.Proofs.Places
import NativeInterface.Proofs.Recovery
import Mathlib.Data.List.Chain

/-!
# One more line

A file that compiles, with the surface form of one more declaration on a line behind it, is read as
its declarations and the new one (`SourceFile.compile_appended`). The exception is a file whose last
token continues the line: what stands behind it is then no line of its own, and a declaration whose
payload starts with a name cannot be read there (`SourceFile.compile_appended_of_isOpen`).
-/

namespace NativeInterface
open Token (Kind)

/-! ## Readings and kinds -/

theorem Lexeme.skim_all_nil : skim (all []) = [] := by simp [all, skim]

namespace Lexed
open Lexeme (skim all Reading)

section
variable {before ahead : List Char} {depth : Nat} {last : Option Kind} {ps : List Piece}

/-- A colon alone is a fault. -/
theorem FaultFree.ne_colon (h : FaultFree before depth last ahead ps) : ahead ≠ [':'] := by
  intro hcolon
  cases h with
  | done | join | lineEnd => cases hcolon
  | blank hscan =>
    obtain ⟨rfl, hnil⟩ := List.cons.inj hcolon
    rw [hnil] at hscan
    cases hscan
  | token hscan =>
    obtain ⟨rfl, hnil⟩ := List.cons.inj hcolon
    rw [hnil] at hscan
    cases hscan

/-- Behind a text without faults, a line feed is read as one, and what follows as if it stood
alone. -/
theorem FaultFree.skim_append (h : FaultFree before depth last ahead ps) (rest : List Char) :
    skim (all (ahead ++ '\n' :: rest)) = skim (all ahead) ++ .lineFeed :: skim (all rest) := by
  have hfeed : ∀ c ∈ ('\n' :: rest).head?, c = '\n' := by
    rintro c ⟨⟩
    rfl
  induction h with
  | done => rw [Lexeme.skim_all_nil, List.nil_append, List.nil_append, Lexeme.skim_lineFeed]
  | @blank _ tail rest' _ _ c _ hscan _ ih =>
    rw [← List.cons_append, List.append_assoc]
    rcases Lexeme.blank_cases hscan with hspaces | ⟨rfl, hline, hend⟩
    · rw [Lexeme.skim_spaces hspaces, Lexeme.skim_spaces hspaces, ih]
    · have hend' : ∀ c ∈ (rest' ++ '\n' :: rest).head?, c = '\n' := by
        cases rest' with
        | nil => exact hfeed
        | cons => exact hend
      rw [List.cons_append, List.cons_append, Lexeme.skim_comment hline hend',
        Lexeme.skim_comment hline hend, ih]
  | join _ _ ih | lineEnd _ _ ih =>
    rw [List.cons_append, Lexeme.skim_lineFeed, Lexeme.skim_lineFeed, ih, List.cons_append]
  | @token _ tail rest' _ _ c k _ hscan hrest ih =>
    have hfollows : Lexeme.Follows rest' (rest' ++ '\n' :: rest) := by
      by_cases hnil : rest' = []
      · subst hnil
        exact .inl rfl
      · have happend : Lexeme.Follows (rest' ++ []) (rest' ++ '\n' :: rest) :=
          Lexeme.follows_append hnil hrest.ne_colon
        rwa [List.append_nil] at happend
    have hne : Reading.token k none ≠ .blank := fun h => by cases h
    rw [List.cons_append, List.append_assoc, Lexeme.skim_of_scan hscan hne,
      Lexeme.skim_of_scan (Lexeme.scan_of_follows hscan hfollows) hne, ih, List.cons_append]

end

theorem laid_append (rs rs' : List Reading) (depth : Nat) (last : Option Kind) :
    laid depth last (rs ++ rs') = laid depth last rs ++
      laid (rs.foldl Reading.depthAfter depth) ((laid depth last rs).getLast?.or last) rs' := by
  induction rs generalizing depth last with
  | nil => rfl
  | cons r rs ih =>
    cases r with
    | blank | loneColon | stray => exact ih depth last
    | token k fault =>
      rw [List.cons_append, laid, laid, ih, List.cons_append, getLast?_cons_or]
      rfl
    | lineFeed =>
      rw [List.cons_append, laid, laid]
      split
      · exact ih depth last
      · rw [ih, List.cons_append, getLast?_cons_or]
        rfl

end Lexed

/-- A text without faults with one more line behind it has its own tokens and those of the line. A
line end stands between them unless there is one already, no token stands before it, or the last one
continues the line. -/
theorem lex_appended {text line : String} {ks : List Kind} (h : (lex text).faults = [])
    (hline : Lexeme.Spells (Lexeme.ends ·) line.toList ks)
    (hbalanced : ks.foldl Kind.depthAfter 0 = 0) :
    (lex (text ++ "\n" ++ line)).faults = [] ∧
      ∃ front : List Kind, (lex text).tokens.map (·.kind) = front ++ [Kind.eof] ∧
        (lex (text ++ "\n" ++ line)).tokens.map (·.kind) = front ++
          ((if Lexed.State.joinsLines { depth := 0, last := front.getLast? } then []
            else [Kind.newline]) ++ (ks ++ [Kind.eof])) := by
  obtain ⟨ps, hfree, -⟩ := exists_faultFree h
  have hlimit : ({} : Lexed.State).budget ≠ 0 := by decide
  have hread : Lexeme.skim (Lexeme.all line.toList) = ks.map (Lexeme.Reading.token · none) := by
    have hnil := hline [] rfl
    rwa [List.append_nil, Lexeme.skim_all_nil, List.append_nil] at hnil
  have hskim := hfree.skim_append line.toList
  have htext : (text ++ "\n" ++ line).toList = text.toList ++ '\n' :: line.toList := by
    rw [String.toList_append, String.toList_append, List.append_assoc]
    rfl
  rw [← htext, hread] at hskim
  obtain ⟨hsound, hdepth⟩ := hfree.sound
  have hdepth' : (Lexeme.skim (Lexeme.all (text ++ "\n" ++ line).toList)).foldl
      Lexeme.Reading.depthAfter 0 = 0 := by
    rw [hskim, List.foldl_append, hdepth, List.foldl_cons, List.foldl_map]
    exact hbalanced
  have hsound' : ∀ r ∈ Lexeme.skim (Lexeme.all (text ++ "\n" ++ line).toList), r.isSound := by
    rw [hskim, List.forall_mem_append, List.forall_mem_cons, List.forall_mem_map]
    exact ⟨hsound, rfl, fun _ _ => rfl⟩
  obtain ⟨hfaults, hkinds⟩ := Lexed.layout_of_isSound hsound' hlimit hdepth'
  refine ⟨hfaults, _, (Lexed.layout_of_isSound hsound hlimit hdepth).2, hkinds.trans ?_⟩
  rw [hskim, Lexed.laid_append, hdepth, Lexed.laid, List.append_assoc, Option.or_none]
  have hks (last : Option Kind) : Lexed.laid 0 last (ks.map (.token · none)) = ks := by
    have hall := Lexed.laid_tokens 0 last ks []
    rwa [List.append_nil, Lexed.laid, List.append_nil] at hall
  split
  · rw [hks, List.nil_append]
  · rw [hks, List.singleton_append, List.cons_append]

/-! ## Streams of lines -/

open NativeInterface.Parser

namespace IsStream
variable {ls : List (List Token)} {ts : List Token}

theorem cons {t : Token} (ht : t.kind ≠ .eof) (h : IsStream ls ts) :
    ∃ ls', IsStream ls' (t :: ts) := by
  by_cases hnewline : t.kind = .newline
  · exact ⟨ls, .newline hnewline h⟩
  have hkind : t.kind.endsLine = false := by
    cases hk : t.kind <;> simp_all [Kind.endsLine]
  have halone (hts : (nextKind ts).endsLine) : ∃ ls', IsStream ls' (t :: ts) :=
    ⟨[t] :: ls, .line (List.cons_ne_nil t []) (List.forall_mem_singleton.mpr hkind) hts h⟩
  cases h with
  | eof hstop => exact halone (by rw [nextKind_cons, hstop]; rfl)
  | newline ht' => exact halone (by rw [nextKind_cons, ht']; rfl)
  | @line l ls ts _ hline hts hrest =>
    have hline' : ∀ u ∈ t :: l, u.kind.endsLine = false :=
      List.forall_mem_cons.mpr ⟨hkind, hline⟩
    exact ⟨(t :: l) :: ls, .line (List.cons_ne_nil t l) hline' hts hrest⟩

end IsStream

/-- Tokens up to the end of the file are lines. -/
theorem exists_isStream {stop : Token} (hstop : stop.kind = .eof) {ts : List Token}
    (hts : ∀ t ∈ ts, t.kind ≠ .eof) : ∃ ls, IsStream ls (ts ++ [stop]) := by
  induction ts with
  | nil => exact ⟨[], .eof hstop⟩
  | cons t ts ih =>
    obtain ⟨ht, hts⟩ := List.forall_mem_cons.mp hts
    obtain ⟨ls, hls⟩ := ih hts
    exact hls.cons ht

namespace IsStream

/-- Lines may stand in place of the end of the file where a line ends, or where none has begun. -/
theorem append {ls ls' : List (List Token)} {ts more : List Token} {stop : Token}
    (hmore : IsStream ls' more) (hstop : stop.kind = .eof) (h : IsStream ls (ts ++ [stop]))
    (hends : ∀ t, ts.getLast? = some t → t.kind ≠ .newline → (nextKind more).endsLine) :
    IsStream (ls ++ ls') (ts ++ more) := by
  generalize hall : ts ++ [stop] = all at h
  induction h generalizing ts with
  | eof =>
    obtain rfl : ts = [] := by
      cases ts with
      | nil => rfl
      | cons t ts => simp at hall
    exact hmore
  | @newline t ls rest ht _ ih =>
    cases ts with
    | nil =>
      obtain ⟨rfl, -⟩ := List.cons.inj hall
      rw [hstop] at ht
      cases ht
    | cons u ts =>
      obtain ⟨rfl, hrest⟩ := List.cons.inj hall
      refine .newline ht (ih (fun t hlast => hends t ?_) hrest)
      rw [List.getLast?_cons, hlast]
      rfl
  | @line l ls rest hne hline hrest _ ih =>
    -- the end of the file stands behind the line
    obtain ⟨ts, rfl, rfl⟩ : ∃ ts', ts = l ++ ts' ∧ rest = ts' ++ [stop] := by
      rcases List.append_eq_append_iff.mp hall with ⟨as, rfl, htail⟩ | ⟨bs, rfl, htail⟩
      · cases as with
        | nil => exact ⟨[], by simp, by simpa using htail.symm⟩
        | cons a as =>
          obtain ⟨rfl, -⟩ := List.cons.inj htail
          have hkind := hline stop (by simp)
          rw [hstop] at hkind
          cases hkind
      · exact ⟨bs, rfl, htail⟩
    rw [List.append_assoc, List.cons_append]
    refine .line hne hline ?_ (ih (fun t hlast => hends t ?_) rfl)
    · cases ts with
      | nil =>
        have hlast := List.getLast?_eq_some_getLast hne
        have hkind := hline _ (List.getLast_mem hne)
        exact hends _ (by rwa [List.append_nil]) (ne_of_endsLine hkind rfl)
      | cons t ts => exact hrest
    · rw [List.getLast?_append, hlast]
      rfl

/-- Tokens without a line end among them stand on one line. -/
theorem exists_infix {ls : List (List Token)} {ts run : List Token} (h : IsStream ls ts)
    (hne : run ≠ []) (hrun : ∀ t ∈ run, t.kind.endsLine = false) (hts : run <:+: ts) :
    ∃ l ∈ ls, run <:+: l := by
  obtain ⟨front, rest, hts⟩ := hts
  rw [List.append_assoc] at hts
  -- the first token of the run ends no line
  have hfirst {t : Token} {us vs : List Token} (ht : t.kind.endsLine)
      (hsplit : run ++ us = t :: vs) : False := by
    obtain ⟨u, run, rfl⟩ := List.exists_cons_of_ne_nil hne
    obtain ⟨rfl, -⟩ := List.cons.inj hsplit
    have hkind := hrun u List.mem_cons_self
    rw [ht] at hkind
    cases hkind
  induction h generalizing front with
  | @eof stop hstop =>
    cases front with
    | nil => exact (hfirst (by rw [hstop]; rfl) hts).elim
    | cons t front => simp [hne] at hts
  | @newline t ls ts ht _ ih =>
    cases front with
    | nil => exact (hfirst (by rw [ht]; rfl) hts).elim
    | cons u front => exact ih front (List.cons.inj hts).2
  | @line l ls ts _ _ hends _ ih =>
    rcases List.append_eq_append_iff.mp hts with ⟨as, rfl, htail⟩ | ⟨bs, rfl, htail⟩
    · rcases List.append_eq_append_iff.mp htail with ⟨cs, rfl, hts⟩ | ⟨cs, hsplit, rfl⟩
      · exact ⟨_, List.mem_cons_self, front, cs, by rw [List.append_assoc]⟩
      · cases cs with
        | nil =>
          rw [List.append_nil] at hsplit
          exact ⟨_, List.mem_cons_self, front, [], by rw [hsplit, List.append_nil]⟩
        | cons c cs =>
          have hkind := hrun c (by simp [hsplit])
          rw [List.cons_append, nextKind_cons, hkind] at hends
          cases hends
    · obtain ⟨l', hl', hin⟩ := ih bs htail.symm
      exact ⟨l', List.mem_cons_of_mem _ hl', hin⟩

end IsStream

namespace Parsed
open Grammar

section
variable {ls : List (List Token)} {l ts : List Token} {stop : Token} (hstop : stop.kind = .eof)
include hstop

theorem fails_of_lines (h : IsStream ls ts) {budget : Nat} (hbudget : budget ≠ 0)
    (hcodes : (lines budget (skipNewlines ts)).codes = []) : ∀ l ∈ ls, fails stop l = false := by
  induction h with
  | eof => simp
  | newline ht _ ih =>
    rw [skipNewlines_cons ht] at hcodes
    exact ih hcodes
  | line hne hline hts _ ih =>
    have hread := lines_line hne hline hstop hts hbudget
    rw [hread.2, List.append_eq_nil_iff] at hcodes
    have hnone := List.map_eq_nil_iff.mp hcodes.1
    rw [hnone] at hcodes
    exact List.forall_mem_cons.mpr ⟨by rw [fails, hnone]; rfl, ih hcodes.2⟩

/-- Where nothing is at fault, no line fails alone. -/
theorem fails_eq_false (h : IsStream ls ts) (hfaults : (ofTokens ts).faults = []) :
    ∀ l ∈ ls, fails stop l = false := by
  have hlimit : Diagnostics.limit ≠ 0 := by decide
  refine fails_of_lines hstop h hlimit ?_
  rw [codes, List.map_eq_nil_iff]
  exact hfaults

/-- Reading one more line behind lines that do not fail. -/
theorem ofTokens_concat {ts' : List Token} (h : IsStream ls ts)
    (hfaults : (ofTokens ts).faults = []) (h' : IsStream (ls ++ [l]) ts') :
    (ofTokens ts').declarations = (ofTokens ts).declarations ++ (alone stop l).declarations ∧
      (ofTokens ts').codes = (alone stop l).codes := by
  have hgood := fails_eq_false hstop h hfaults
  have hnone : ls.countP (fails stop) = 0 := by
    rw [List.countP_eq_zero]
    exact fun l hl => Bool.eq_false_iff.mp (hgood l hl)
  have hone : (ls ++ [l]).countP (fails stop) < Diagnostics.limit := by
    rw [List.countP_append, hnone, Nat.zero_add]
    exact Nat.lt_of_le_of_lt List.countP_le_length (show 1 < Diagnostics.limit by decide)
  have hread : (ofTokens ts).OneByOne stop ls :=
    lines_of_isStream hstop h (by rw [hnone]; decide)
  have hread' : (ofTokens ts').OneByOne stop (ls ++ [l]) := lines_of_isStream hstop h' hone
  have hcodes : (ofTokens ts).codes = [] := by rw [codes, hfaults, List.map_nil]
  rw [hread.codes] at hcodes
  rw [hread'.declarations, hread'.codes, hread.declarations, List.flatMap_append,
    List.flatMap_append, hcodes, List.flatMap_singleton, List.flatMap_singleton]
  exact ⟨rfl, rfl⟩

/-- A line with the tokens of a surface form is its declaration. -/
theorem alone_of_writable {d : Declaration} (hd : d.Writable) (hl : l.map (·.kind) = d.kinds) :
    ∃ d', alone stop l = ⟨[d'], []⟩ ∧ d'.unplaced = d.unplaced := by
  have hline : ∀ t ∈ l, t.kind.endsLine = false := by
    intro t ht
    exact hd.derives.inLine _ (hl ▸ List.mem_map_of_mem ht)
  have hne : l ≠ [] := by
    rintro rfl
    cases hl
  have hend : (nextKind [stop]).endsLine := by
    rw [nextKind_cons, hstop]
    rfl
  have hreads : Reads (l ++ [stop]) d.kinds [stop] := ⟨l, rfl, hl⟩
  obtain ⟨d', e, hread, -, hd'⟩ := line_complete (c := ⟨.point 1 1, l ++ [stop]⟩) hd.derives
    hd.levels_le hreads hend
  exact ⟨d', (ofTokens_of_line hne hline hstop).1 d' e hread, hd'⟩

/-- A line that does not fail derives from the grammar. -/
theorem derives_of_fails (hne : l ≠ []) (hline : ∀ t ∈ l, t.kind.endsLine = false)
    (hl : fails stop l = false) : ∃ d, IsDeclaration false (l.map (·.kind)) d := by
  obtain ⟨-, herror⟩ := ofTokens_of_line hne hline hstop
  cases hread : line ⟨.point 1 1, l ++ [stop]⟩ with
  | error fault =>
    rw [fails, alone, herror fault hread] at hl
    cases hl
  | ok x =>
    obtain ⟨ks, hks, hderives, -, hend⟩ := line_sound hread
    rw [Cursor.kind_eq] at hend
    obtain ⟨rfl, -⟩ := hks.eq_of_inLine hderives.inLine hend hline hstop
    exact ⟨x.1, hderives⟩

end

end Parsed

/-! ## Names side by side -/

namespace Grammar

def isIdentifier : Kind → Bool
  | .identifier _ => true
  | _ => false

/-- Not both of the kinds are names. -/
def Apart (k k' : Kind) : Prop := isIdentifier k = false ∨ isIdentifier k' = false

section
variable {k : Kind} {ks ls : List Kind} (hk : isIdentifier k = false)
include hk

theorem isChain_cons_apart (h : ks.IsChain Apart) : (k :: ks).IsChain Apart :=
  List.isChain_cons.mpr ⟨fun _ _ => .inl hk, h⟩

theorem isChain_append_apart (h : ks.IsChain Apart) (h' : ls.IsChain Apart) :
    (ks ++ k :: ls).IsChain Apart := by
  refine List.isChain_append.mpr ⟨h, isChain_cons_apart hk h', ?_⟩
  rintro _ - _ ⟨⟩
  exact .inr hk

theorem isChain_concat_apart (h : ks.IsChain Apart) : (ks ++ [k]).IsChain Apart :=
  isChain_append_apart hk h .nil

end

theorem IsName.apart {ks : List Kind} {parts : List String} (h : IsName ks parts) :
    ks.IsChain Apart := by
  induction h with
  | one => exact .singleton _
  | cons _ ih => exact isChain_cons_apart rfl (isChain_cons_apart rfl ih)

mutual

theorem IsExpr.apart {ks : List Kind} {e : Expr} : IsExpr false ks e → ks.IsChain Apart
  | .plain h => h.apart
  | .typed h h' => isChain_append_apart rfl h.apart h'.apart

theorem IsAlt.apart {ks : List Kind} {e : Expr} : IsAlt false ks e → ks.IsChain Apart
  | .plain h => h.apart
  | .alt h h' => isChain_append_apart rfl h.apart h'.apart

theorem IsPrimary.apart {ks : List Kind} {e : Expr} : IsPrimary false ks e → ks.IsChain Apart
  | .ident | .atom | .int | .str => .singleton _
  | .dotted h => h.apart
  | .call h => List.isChain_cons_cons.mpr
      ⟨.inr rfl, isChain_cons_apart rfl (isChain_concat_apart rfl h.apart)⟩
  | .list h | .tuple h => isChain_cons_apart rfl (isChain_concat_apart rfl h.apart)
  | .map h h' => isChain_cons_apart rfl
      (isChain_append_apart rfl h.apart (isChain_concat_apart rfl h'.apart))

theorem IsEntries.apart {ks : List Kind} {pairs : List (Ident × Expr)} :
    IsEntries false ks pairs → ks.IsChain Apart
  | .none => .nil
  | .some h => h.apart

theorem IsExprs.apart {ks : List Kind} {es : List Expr} : IsExprs false ks es → ks.IsChain Apart
  | .one h => h.apart
  | .cons h h' => isChain_append_apart rfl h.apart h'.apart

theorem IsPairs.apart {ks : List Kind} {pairs : List (Ident × Expr)} :
    IsPairs false ks pairs → ks.IsChain Apart
  | .one h => isChain_cons_apart rfl h.apart
  | .cons h h' => isChain_cons_apart rfl (isChain_append_apart rfl h.apart h'.apart)

theorem IsPayload.apart {ks : List Kind} {es : List Expr} :
    IsPayload false ks es → ks.IsChain Apart
  | .exprs h | .pairs h => h.apart
  | .comma h => isChain_concat_apart rfl h.apart
  | .exprsPairs h h' => isChain_append_apart rfl h.apart h'.apart

theorem IsItems.apart {ks : List Kind} {es : List Expr} : IsItems false ks es → ks.IsChain Apart
  | .none => .nil
  | .some h => h.apart

end

/-- Behind the kind word of a declaration, no two names stand side by side. -/
theorem IsDeclaration.apart {ks : List Kind} {d : Declaration} (h : IsDeclaration false ks d) :
    ks.tail.IsChain Apart := by
  obtain ⟨_, _, _, _, _, rfl, -, hitems⟩ := h.items
  exact hitems.apart

end Grammar

/-! ## Files -/

theorem Surface.build_eq_ok_iff_of_unplaced {name : String} {s : Surface}
    {ds es : List Declaration} (h : ds.map Declaration.unplaced = es.map Declaration.unplaced) :
    build name ds = .ok s ↔ build name es = .ok s := by
  have hbuild := Surface.build_unplaced name ds
  rw [h, Surface.build_unplaced, Outcome.forget_id, Outcome.forget_id] at hbuild
  rcases Outcome.mapError_eq_mapError hbuild with ⟨s', hes, hds⟩ | ⟨_, _, hes, hds, -⟩
  · rw [hds, hes]
  · rw [hds, hes]
    exact iff_of_false (fun h => by cases h) (fun h => by cases h)

namespace SourceFile
variable {f : SourceFile} {s s' : Surface} {d : Declaration}

/-- The file with one more line. -/
def appended (f : SourceFile) (line : String) : SourceFile :=
  { f with text := f.text ++ "\n" ++ line }

/-- The last token of the file continues its line, so that the line goes on behind the file. -/
def isOpen (f : SourceFile) : Bool :=
  (lex f.text).tokens.dropLast.getLast?.any (·.kind.continuesLine)

theorem compile_eq_ok_iff : f.compile = .ok s ↔
    f.parse.diagnostics.hasErrors = false ∧
      Surface.build (specName f.name) f.parse.declarations = .ok s := by
  refine ⟨build_of_compile, ?_⟩
  rintro ⟨herrors, hbuild⟩
  rw [compile, herrors, if_neg Bool.false_ne_true, hbuild]

theorem hasErrors_parse_eq_false_iff : f.parse.diagnostics.hasErrors = false ↔
    (lex f.text).faults = [] ∧ (Parsed.ofTokens (lex f.text).tokens).faults = [] := by
  constructor
  · intro h
    obtain ⟨hlex, -⟩ := lex_of_parse h
    rw [parse_of_lex hlex, Parsed.diagnostics, Diagnostics.hasErrors_ofList,
      List.map_eq_nil_iff] at h
    exact ⟨hlex, h⟩
  · rintro ⟨hlex, hfaults⟩
    rw [parse_of_lex hlex, Parsed.diagnostics, Diagnostics.hasErrors_ofList, hfaults,
      List.map_nil]

/-- The tokens of a file with one more line: those of the file, a line end if one has to stand
there, and those of the line. -/
structure Appended (f : SourceFile) (d : Declaration) (ts gap l : List Token) (stop : Token) :
    Prop where
  tokens : (lex (f.appended d.line).text).tokens = ts ++ (gap ++ (l ++ [stop]))
  frontKinds : (lex f.text).tokens.map (·.kind) = (ts ++ [stop]).map (·.kind)
  gapKinds : gap.map (·.kind) =
    if Lexed.State.joinsLines { depth := 0, last := (ts.map (·.kind)).getLast? } then []
    else [.newline]
  lineKinds : l.map (·.kind) = d.kinds
  stopKind : stop.kind = .eof
  eof : ∀ t ∈ ts ++ (gap ++ l), t.kind ≠ .eof

theorem exists_appended (h : (lex f.text).faults = []) (hd : ∀ k ∈ d.kinds, k.Spelled) :
    (lex (f.appended d.line).text).faults = [] ∧ ∃ ts gap l stop, Appended f d ts gap l stop := by
  obtain ⟨hlex, front, hfront, hkinds⟩ :=
    lex_appended h (Declaration.spells_line hd) (d.balanced_kinds 0)
  refine ⟨hlex, ?_⟩
  obtain ⟨us, stop, htokens, hstop, heof⟩ := (endsDeclarations_lex (f.appended d.line).text).eof
  have hkinds := (congrArg (List.map (·.kind)) htokens).symm.trans hkinds
  rw [List.map_append, List.map_singleton, hstop, ← List.append_assoc,
    ← List.append_assoc] at hkinds
  have hus := List.append_cancel_right hkinds
  rw [List.append_assoc] at hus
  obtain ⟨ts, vs, rfl, rfl, hvs⟩ := List.map_eq_append_iff.mp hus
  obtain ⟨gap, l, rfl, hgap, hl⟩ := List.map_eq_append_iff.mp hvs
  refine ⟨ts, gap, l, stop, ?_, ?_, hgap, hl, hstop, heof⟩
  · rw [htokens, List.append_assoc, List.append_assoc]
  · rw [hfront, List.map_append, List.map_singleton, hstop]

namespace Appended
variable {ts gap l : List Token} {stop : Token} (h : Appended f d ts gap l stop)
include h

theorem isOpen_eq : f.isOpen = ts.getLast?.any (·.kind.continuesLine) := by
  obtain ⟨us, rest, htokens, hus, hrest⟩ := List.map_eq_append_iff.mp
    (h.frontKinds.trans (List.map_append ..))
  obtain ⟨stop', rfl, -⟩ := List.map_eq_singleton_iff.mp hrest
  have hlast := congrArg List.getLast? hus
  rw [List.getLast?_map, List.getLast?_map] at hlast
  have hany := congrArg (Option.any Kind.continuesLine) hlast
  rw [Option.any_map, Option.any_map] at hany
  rw [isOpen, htokens, List.dropLast_concat]
  exact hany

theorem meaning : (Parsed.ofTokens (lex f.text).tokens).SameMeaning
    (Parsed.ofTokens (ts ++ [stop])) :=
  Parsed.sameMeaning_ofTokens h.frontKinds

/-- Where the last line of the file does not go on, the new line is a line of its own. -/
theorem isStream (hd : d.Writable) (hopen : f.isOpen = false) {ls : List (List Token)}
    (hls : IsStream ls (ts ++ [stop])) :
    IsStream (ls ++ [l]) (ts ++ (gap ++ (l ++ [stop]))) := by
  have hne : l ≠ [] := by
    rintro rfl
    cases h.lineKinds
  have hline : ∀ t ∈ l, t.kind.endsLine = false := fun t ht =>
    hd.derives.inLine _ (h.lineKinds ▸ List.mem_map_of_mem ht)
  have hend : (nextKind [stop]).endsLine := by
    rw [nextKind_cons, h.stopKind]
    rfl
  have hlast : IsStream [l] (l ++ [stop]) := .line hne hline hend (.eof h.stopKind)
  have hgap := h.gapKinds
  split at hgap
  · rename_i hjoins
    obtain rfl := List.map_eq_nil_iff.mp hgap
    refine hlast.append h.stopKind hls fun t ht hnewline => ?_
    rw [h.isOpen_eq, ht] at hopen
    rw [List.getLast?_map, ht] at hjoins
    simp_all [Lexed.State.joinsLines]
  · obtain ⟨u, rfl, hu⟩ := List.map_eq_singleton_iff.mp hgap
    refine (IsStream.newline hu hlast).append h.stopKind hls fun _ _ _ => ?_
    rw [nextKind_cons, hu]
    rfl

end Appended

/-- **One more line is one more declaration**, unless the last line of the file goes on. -/
theorem compile_appended (h : f.compile = .ok s) (hopen : f.isOpen = false) (hd : d.Writable) :
    (f.appended d.line).compile = .ok s' ↔
      Surface.build (specName f.name) (f.parse.declarations ++ [d]) = .ok s' := by
  obtain ⟨hlex, hfaults⟩ := hasErrors_parse_eq_false_iff.mp (build_of_compile h).1
  obtain ⟨hlex', ts, gap, l, stop, happ⟩ := exists_appended hlex hd.spelled
  obtain ⟨ls, hls⟩ := exists_isStream happ.stopKind fun t ht =>
    happ.eof t (List.mem_append_left _ ht)
  have hmeaning := happ.meaning
  have hfaults' : (Parsed.ofTokens (ts ++ [stop])).faults = [] := by
    rw [← List.map_eq_nil_iff, ← hmeaning.faults, hfaults, List.map_nil]
  obtain ⟨d', halone, hd'⟩ := Parsed.alone_of_writable happ.stopKind hd happ.lineKinds
  obtain ⟨hdecls, hcodes⟩ :=
    Parsed.ofTokens_concat happ.stopKind hls hfaults' (happ.isStream hd hopen hls)
  rw [halone] at hdecls hcodes
  rw [← happ.tokens] at hdecls hcodes
  have herrors : (f.appended d.line).parse.diagnostics.hasErrors = false :=
    hasErrors_parse_eq_false_iff.mpr ⟨hlex', List.map_eq_nil_iff.mp hcodes⟩
  have hunplaced : (f.appended d.line).parse.declarations.map Declaration.unplaced =
      (f.parse.declarations ++ [d]).map Declaration.unplaced := by
    rw [parse_of_lex hlex', parse_of_lex hlex, hdecls, List.map_append, List.map_append,
      List.map_singleton, List.map_singleton, hd', hmeaning.declarations]
  rw [compile_eq_ok_iff, Surface.build_eq_ok_iff_of_unplaced hunplaced]
  exact and_iff_right herrors

/-- Behind a line that goes on, a declaration whose payload starts with a name is not read. -/
theorem compile_appended_of_isOpen (h : f.compile = .ok s) (hopen : f.isOpen)
    (hd : ∀ k ∈ d.kinds, k.Spelled) {kind name : String} {ks : List Kind}
    (hkinds : d.kinds = .identifier kind :: .identifier name :: ks) :
    (f.appended d.line).compile ≠ .ok s' := by
  intro hcompile
  obtain ⟨hlex, -⟩ := hasErrors_parse_eq_false_iff.mp (build_of_compile h).1
  obtain ⟨-, hfaults⟩ := hasErrors_parse_eq_false_iff.mp (build_of_compile hcompile).1
  obtain ⟨-, ts, gap, l, stop, happ⟩ := exists_appended hlex hd
  -- no line end stands between the last token of the file and the new line
  rw [happ.isOpen_eq] at hopen
  obtain ⟨t, hlast, hcontinues⟩ := (Option.any_eq_true _ _).mp hopen
  obtain ⟨front, rfl⟩ := List.getLast?_eq_some_iff.mp hlast
  have hgap : gap = [] := by
    have hkinds := happ.gapKinds
    rw [List.getLast?_map, hlast] at hkinds
    simpa [Lexed.State.joinsLines, hcontinues] using hkinds
  subst hgap
  obtain ⟨a, l', rfl, ha, hl'⟩ := List.map_eq_cons_iff.mp (happ.lineKinds.trans hkinds)
  obtain ⟨b, rest, rfl, hb, -⟩ := List.map_eq_cons_iff.mp hl'
  obtain ⟨ls, hls⟩ := exists_isStream happ.stopKind happ.eof
  have htokens : (lex (f.appended d.line).text).tokens =
      front ++ [t] ++ ([] ++ a :: b :: rest) ++ [stop] := by
    rw [happ.tokens, List.append_assoc (front ++ [t])]
    rfl
  rw [htokens] at hfaults
  -- so both stand on one line
  have hrun : ∀ u ∈ [t, a, b], u.kind.endsLine = false := by
    have ht : t.kind.endsLine = false := by
      cases hk : t.kind <;> simp_all [Kind.endsLine, Kind.continuesLine]
    rw [List.forall_mem_cons, List.forall_mem_cons, List.forall_mem_singleton, ha, hb]
    exact ⟨ht, rfl, rfl⟩
  have hinfix : [t, a, b] <:+: front ++ [t] ++ ([] ++ a :: b :: rest) ++ [stop] :=
    ⟨front, rest ++ [stop], by simp⟩
  obtain ⟨l, hl, x, y, hxy⟩ := hls.exists_infix (List.cons_ne_nil t _) hrun hinfix
  obtain ⟨hne, hline⟩ := Parsed.line_of_mem hls l hl
  obtain ⟨d', hderives⟩ := Parsed.derives_of_fails happ.stopKind hne hline
    (Parsed.fails_eq_false happ.stopKind hls hfaults l hl)
  have htail : [a.kind, b.kind] <:+: (l.map (·.kind)).tail := by
    rw [← hxy]
    cases x with
    | nil => exact ⟨[], y.map (·.kind), by simp⟩
    | cons u x => exact ⟨(x ++ [t]).map (·.kind), y.map (·.kind), by simp⟩
  have hchain := List.IsChain.infix hderives.apart htail
  rw [ha, hb] at hchain
  rcases (List.isChain_cons_cons.mp hchain).1 with hnone | hnone <;> cases hnone

end SourceFile

end NativeInterface
