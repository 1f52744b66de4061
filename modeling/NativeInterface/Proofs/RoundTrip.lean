import NativeInterface.Compile
import NativeInterface.Proofs.ParserExact
import NativeInterface.Proofs.SurfaceForm

/-!
# Writing declarations back

Declarations that were read from a file, each written on a line of its own, are read again as the
same declarations up to places. What a file holds derives from the grammar, so each of its
declarations also derives from the tokens of its surface form, and these are what reading the
surface form gives.
-/

namespace NativeInterface
open Token (Kind)
open Grammar

namespace Declaration
variable {ds : List Declaration}

/-- The kind word, a blank and the payload in the surface form. -/
def line (d : Declaration) : String :=
  d.kind.name ++ " " ++ Text.join ", " (Expr.texts d.payload)

/-- Declarations, each on a line of its own. -/
def write : List Declaration → String
  | [] => ""
  | d :: ds => d.line ++ "\n" ++ write ds

/-- A declaration that is read again from its surface form. -/
structure Writable (d : Declaration) : Prop where
  derives : IsDeclaration false d.kinds d
  levels_le : d.levels ≤ Parser.maxNesting
  spelled : ∀ k ∈ d.kinds, k.Spelled

/-! ## Tokens of the written text -/

theorem spells_line {d : Declaration} (h : ∀ k ∈ d.kinds, k.Spelled) :
    Lexeme.Spells (Lexeme.ends ·) d.line.toList d.kinds := by
  rw [kinds, List.forall_mem_cons] at h
  have hpayload := Expr.spells_items h.2
  have hkind := (Lexeme.spells_word h.1).append (Lexeme.spells_space (p := fun _ => True))
    fun _ _ => rfl
  rw [line, String.toList_append, String.toList_append]
  exact hkind.append hpayload fun _ _ => trivial

/-- The readings of declarations on lines of their own. -/
def readings (ds : List Declaration) : List Lexeme.Reading :=
  ds.flatMap fun d => d.kinds.map (.token · none) ++ [.lineFeed]

theorem skim_write (h : ∀ d ∈ ds, d.Writable) :
    Lexeme.skim (Lexeme.all (write ds).toList) = readings ds := by
  induction ds with
  | nil => simp [write, Lexeme.all, Lexeme.skim, readings]
  | cons d ds ih =>
    rw [List.forall_mem_cons] at h
    have hfeed : ("\n").toList ++ (write ds).toList = '\n' :: (write ds).toList := rfl
    rw [write, String.toList_append, String.toList_append, List.append_assoc, hfeed,
      spells_line h.1.spelled _ rfl, Lexeme.skim_lineFeed, ih h.2, readings, readings,
      List.flatMap_cons, List.append_assoc, List.singleton_append]

theorem foldl_readings (ds : List Declaration) (depth : Nat) :
    (readings ds).foldl Lexeme.Reading.depthAfter depth = depth := by
  induction ds generalizing depth with
  | nil => rfl
  | cons d ds ih =>
    have hline : (d.kinds.map (Lexeme.Reading.token · none)).foldl Lexeme.Reading.depthAfter depth =
        depth := by
      rw [List.foldl_map]
      exact d.balanced_kinds depth
    rw [readings, List.flatMap_cons, List.foldl_append, List.foldl_append, hline]
    exact ih depth

theorem isSound_readings : ∀ r ∈ readings ds, r.isSound := by
  intro r hr
  obtain ⟨d, -, hr⟩ := List.mem_flatMap.mp hr
  rcases List.mem_append.mp hr with hr | hr
  · obtain ⟨k, -, rfl⟩ := List.mem_map.mp hr
    rfl
  · rw [List.mem_singleton.mp hr]
    rfl

theorem laid_readings (h : ∀ d ∈ ds, d.Writable) (last : Option Kind) :
    Lexed.laid 0 last (readings ds) = ds.flatMap (·.kinds ++ [Kind.newline]) := by
  induction ds generalizing last with
  | nil => rfl
  | cons d ds ih =>
    obtain ⟨hd, h⟩ := List.forall_mem_cons.mp h
    obtain ⟨k, hlast, hcontinues⟩ := hd.derives.endsLast
    have hnewline : k ≠ .newline := by
      rintro rfl
      cases hd.derives.inLine _ (List.mem_of_getLast? hlast)
    have hjoins : ¬Lexed.State.joinsLines { depth := 0, last := some k } := by
      simp [Lexed.State.joinsLines, hcontinues, hnewline]
    rw [readings, List.flatMap_cons, List.append_assoc, Lexed.laid_tokens, d.balanced_kinds, hlast,
      List.singleton_append, Option.some_or, Lexed.laid, if_neg hjoins, ← readings, ih h,
      List.flatMap_cons, List.append_assoc, List.singleton_append]

/-- The written text has the tokens of the declarations, with a line end behind each. -/
theorem lex_write (h : ∀ d ∈ ds, d.Writable) :
    (lex (write ds)).faults = [] ∧
      (lex (write ds)).tokens.map (·.kind) =
        ds.flatMap (·.kinds ++ [Kind.newline]) ++ [Kind.eof] := by
  have hskim := skim_write h
  rw [← laid_readings h none, ← hskim]
  refine Lexed.layout_of_isSound ?_ (by decide) ?_
  · rw [hskim]
    exact isSound_readings
  · rw [hskim]
    exact foldl_readings ds 0

end Declaration

/-! ## Reading the written text -/

namespace Parsed
open NativeInterface.Parser
variable {ts : List Token}

theorem nextKind_of_map {k : Kind} {ks : List Kind} (h : ts.map (·.kind) = k :: ks) :
    nextKind ts = k := by
  obtain ⟨t, ts, rfl, rfl, -⟩ := List.map_eq_cons_iff.mp h
  rfl

theorem nextKind_ne_newline {ds : List Declaration}
    (hts : ts.map (·.kind) = ds.flatMap (·.kinds ++ [Kind.newline]) ++ [Kind.eof]) :
    nextKind ts ≠ .newline := by
  cases ds with
  | nil =>
    rw [nextKind_of_map hts]
    nofun
  | cons =>
    rw [nextKind_of_map hts]
    nofun

theorem lines_of_kinds {budget : Nat} (hbudget : budget ≠ 0) {ds : List Declaration}
    (h : ∀ d ∈ ds, d.Writable)
    (hts : ts.map (·.kind) = ds.flatMap (·.kinds ++ [Kind.newline]) ++ [Kind.eof]) :
    (lines budget ts).faults = [] ∧
      (lines budget ts).declarations.map Declaration.unplaced = ds.map Declaration.unplaced := by
  induction ds generalizing ts with
  | nil =>
    obtain ⟨stop, rest, rfl, hstop, -⟩ := List.map_eq_cons_iff.mp hts
    rw [lines_of_eof hstop]
    exact ⟨rfl, rfl⟩
  | cons d ds ih =>
    obtain ⟨hd, h⟩ := List.forall_mem_cons.mp h
    rw [List.flatMap_cons, List.append_assoc, List.append_assoc] at hts
    obtain ⟨front, rest, rfl, hfront, hrest⟩ := List.map_eq_append_iff.mp hts
    obtain ⟨stop, rest, rfl, hstop, hrest⟩ := List.map_eq_cons_iff.mp hrest
    let c : Cursor := ⟨.point 1 1, front ++ stop :: rest⟩
    have hc : Reads c.ahead d.kinds (stop :: rest) := ⟨front, rfl, hfront⟩
    obtain ⟨d', e, hread, he, hd'⟩ :=
      line_complete hd.derives hd.levels_le hc (by rw [nextKind_cons, hstop]; rfl)
    have hfirst : nextKind (front ++ stop :: rest) ≠ .eof := by
      rw [nextKind_of_map hts]
      nofun
    obtain ⟨hfaults, hdecls⟩ := ih h hrest
    rw [lines_of_ok hbudget hfirst hread, he, skipNewlines_cons hstop,
      skipNewlines_of_ne (nextKind_ne_newline hrest)]
    exact ⟨hfaults, by rw [List.map_cons, List.map_cons, hd', hdecls]⟩

/-! ## What a file holds -/

theorem derives_of_mem_lines {budget : Nat} {d : Declaration}
    (hd : d ∈ (lines budget ts).declarations) :
    ∃ ks, IsDeclaration false ks d ∧ d.levels ≤ maxNesting ∧
      ∃ ahead rest, ahead <:+ ts ∧ Reads ahead ks rest := by
  fun_induction lines budget ts with
  | case1 | case2 => cases hd
  | case3 budget t rest hgoes d' e hread tail ih =>
    obtain ⟨ks, hreads, hderives, hlevels, -⟩ := line_sound hread
    rcases List.mem_cons.mp hd with rfl | hd
    · exact ⟨ks, hderives, hlevels, _, _, List.suffix_refl _, hreads⟩
    · obtain ⟨ks', hderives', hlevels', ahead, rest', hahead, hreads'⟩ := ih hd
      have hskip : skipNewlines e.val.ahead <:+ t :: rest :=
        (List.dropWhile_suffix _).trans hreads.suffix
      exact ⟨ks', hderives', hlevels', ahead, rest', hahead.trans hskip, hreads'⟩
  | case4 budget t rest hgoes fault hread tail ih =>
    obtain ⟨ks, hderives, hlevels, ahead, rest', hahead, hreads⟩ := ih hd
    exact ⟨ks, hderives, hlevels, ahead, rest', hahead.trans (nextLine_suffix _), hreads⟩

end Parsed

theorem Diagnostics.total_foldl_push (ds : List Diagnostic) (found : Diagnostics) :
    (ds.foldl push found).total = found.total + ds.length := by
  induction ds generalizing found with
  | nil => rfl
  | cons d ds ih =>
    have hpush : (push found d).total = found.total + 1 := rfl
    rw [List.foldl_cons, ih, hpush, List.length_cons]
    omega

theorem Diagnostics.hasErrors_ofList (ds : List Diagnostic) :
    (ofList ds).hasErrors = false ↔ ds = [] := by
  simp [hasErrors, ofList, total_foldl_push, empty]

namespace SourceFile
variable {f : SourceFile}

theorem lex_of_parse (h : f.parse.diagnostics.hasErrors = false) :
    (lex f.text).faults = [] ∧
      f.parse.declarations = (Parsed.ofTokens (lex f.text).tokens).declarations := by
  unfold parse at h ⊢
  dsimp only at h ⊢
  split at h
  · rename_i hempty
    rw [if_pos hempty]
    exact ⟨List.isEmpty_iff.mp hempty, rfl⟩
  · rename_i hempty
    rw [Lexed.diagnostics, Diagnostics.hasErrors_ofList, List.map_eq_nil_iff] at h
    exact absurd (List.isEmpty_iff.mpr h) hempty

/-- The tokens of what is read from a file without faults are spelled as their kinds are. -/
theorem spelled_of_mem_kinds (h : f.parse.diagnostics.hasErrors = false) {d : Declaration}
    (hd : d ∈ f.parse.declarations) {k : Kind} (hk : k ∈ d.kinds) :
    ∃ t ∈ (lex f.text).tokens, t.kind = k ∧ (k.isPlain → k.Spelled) := by
  obtain ⟨hfaults, hdecls⟩ := lex_of_parse h
  rw [hdecls] at hd
  obtain ⟨ks, hderives, -, ahead, rest, hahead, hreads⟩ := Parsed.derives_of_mem_lines hd
  have hks := hreads.sublist.trans (hahead.sublist.map _)
  obtain ⟨hcanonical, hsublist⟩ := hderives.canonical
  have hline := hcanonical.inLine k hk
  obtain ⟨t, ht, rfl⟩ := List.mem_map.mp ((hsublist.trans hks).subset hk)
  have hmem : t ∈ (lex f.text).tokens := List.dropWhile_subset _ ht
  refine ⟨t, hmem, rfl, fun hplain => ?_⟩
  rcases spelled_of_lex hfaults hmem hplain with hend | hspelled
  · rw [hline] at hend
    cases hend
  · exact hspelled

/-- What is read from a file without faults can be written back. -/
theorem writable_of_parse (h : f.parse.diagnostics.hasErrors = false)
    (hplain : ∀ t ∈ (lex f.text).tokens, t.kind.isPlain) :
    ∀ d ∈ f.parse.declarations, d.Writable := by
  intro d hd
  obtain ⟨ks, hderives, hlevels, -⟩ := Parsed.derives_of_mem_lines ((lex_of_parse h).2 ▸ hd)
  refine ⟨hderives.canonical.1, hlevels, fun k hk => ?_⟩
  obtain ⟨t, ht, rfl, hspelled⟩ := spelled_of_mem_kinds h hd hk
  exact hspelled (hplain t ht)

theorem parse_of_lines (hlex : (lex f.text).faults = [])
    (hfirst : Parser.nextKind (lex f.text).tokens ≠ .newline)
    (hlines : (Parsed.lines Diagnostics.limit (lex f.text).tokens).faults = []) :
    f.parse =
      ⟨(Parsed.lines Diagnostics.limit (lex f.text).tokens).declarations, Diagnostics.empty⟩ := by
  simp only [parse, hlex, List.isEmpty_nil, if_true, Parsed.ofTokens, Parsed.diagnostics,
    Parser.skipNewlines_of_ne hfirst, hlines]
  rfl

/-- The file with its declarations in the surface form, one on each line. -/
def written (f : SourceFile) : SourceFile :=
  { f with text := Declaration.write f.parse.declarations }

/-- Declarations read from a file without faults, whose strings hold nothing but ASCII that shows,
line feeds and tabs, are read again from their surface forms. -/
theorem parse_written {f : SourceFile} (h : f.parse.diagnostics.hasErrors = false)
    (hplain : ∀ t ∈ (lex f.text).tokens, t.kind.isPlain) :
    f.written.parse.diagnostics.hasErrors = false ∧
      f.written.parse.declarations.map Declaration.unplaced =
        f.parse.declarations.map Declaration.unplaced := by
  have hwritable := writable_of_parse h hplain
  obtain ⟨hfaults, hkinds⟩ := Declaration.lex_write hwritable
  have hbudget : Diagnostics.limit ≠ 0 := by decide
  obtain ⟨hlines, hdecls⟩ := Parsed.lines_of_kinds hbudget hwritable hkinds
  have hparse := parse_of_lines (f := f.written) hfaults (Parsed.nextKind_ne_newline hkinds) hlines
  rw [hparse]
  exact ⟨rfl, hdecls⟩

/-- Two declarations on three lines, with a comment, a comma that the surface form does not have and
a string with a line feed and a quote. -/
theorem parse_written_spec :
    let f : SourceFile := ⟨"a.spec", "f [a::b,]|\n :x#c\ng k: \"\\n\\\"\""⟩
    f.parse.diagnostics.hasErrors = false ∧ (∀ t ∈ (lex f.text).tokens, t.kind.isPlain) ∧
      f.written.text = "f [a :: b] | :x\ng k: \"\\n\\\"\"\n" ∧
      f.written.parse.diagnostics.hasErrors = false ∧
      f.written.parse.declarations.map Declaration.unplaced =
        f.parse.declarations.map Declaration.unplaced := by
  intro f
  have h : f.parse.diagnostics.hasErrors = false := by decide +kernel
  have hplain : (lex f.text).tokens.all (·.kind.isPlain) := by decide +kernel
  rw [List.all_eq_true] at hplain
  exact ⟨h, hplain, by decide +kernel, parse_written h hplain⟩

end SourceFile

end NativeInterface
