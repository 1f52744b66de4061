import NativeInterface.Proofs.FaultPlaces
import NativeInterface.Proofs.RoundTrip

/-!
# Diagnostics point at the source

Each diagnostic of a file that does not compile stands at a place of the file and shows the line it
starts on. A fault in a declaration stands within the first declaration that cannot be applied.
-/

namespace NativeInterface

/-! ## Diagnostics of placed faults -/

/-- The diagnostic is about the file, starts on one of its lines or right behind it, shows that line
and does not end before it starts. -/
structure Diagnostic.PointsInto (d : Diagnostic) (f : SourceFile) : Prop where
  file : d.file = f.name
  line : 1 ≤ d.span.startLine ∧ d.span.startLine ≤ f.lineCount
  shown : f.line? d.span.startLine = some d.sourceLine
  column : ∃ raw, f.rawLines[d.span.startLine - 1]? = some raw ∧
    1 ≤ d.span.startColumn ∧ d.span.startColumn ≤ (String.ofList raw).utf8ByteSize + 1
  ordered : Span.before (d.span.startLine, d.span.startColumn) (d.span.endLine, d.span.endColumn)

section
variable {f : SourceFile}

theorem SourceFile.line?_of_holds {line column : Nat} (h : f.Holds line column) :
    line ≤ f.lineCount ∧ f.line? line = some (f.context line) := by
  obtain ⟨hline, raw, hraw, -⟩ := h
  obtain ⟨n, rfl⟩ := Nat.exists_eq_add_of_le' hline
  have hshown : f.line? (n + 1) = some _ := congrArg (Option.map _) hraw
  refine ⟨(List.getElem?_eq_some_iff.mp hraw).1, ?_⟩
  rw [context, hshown]
  rfl

theorem Diagnostic.pointsInto_inFile {code : Code} {message : String} {span : Span}
    (h : span.PointsInto f) (suggestion : Option String) :
    ({ inFile f code message span with suggestion } : Diagnostic).PointsInto f := by
  obtain ⟨hline, hshown⟩ := SourceFile.line?_of_holds h.holds
  exact ⟨rfl, ⟨h.holds.1, hline⟩, hshown, h.holds.2, h.ordered⟩

theorem Fault.pointsInto_diagnostic {fault : Fault} {span : Span} (hspan : fault.span? = some span)
    (h : span.PointsInto f) :
    (fault.diagnostic f).span = span ∧ (fault.diagnostic f).PointsInto f := by
  unfold diagnostic
  rw [hspan]
  exact ⟨rfl, Diagnostic.pointsInto_inFile h _⟩

end

/-! ## All faults are shown -/

theorem Diagnostics.foldl_push {ds : List Diagnostic} {found : Diagnostics}
    (h : found.stored.length + ds.length ≤ limit) :
    ds.foldl push found = ⟨found.stored ++ ds, found.total + ds.length⟩ := by
  induction ds generalizing found with
  | nil => rw [List.append_nil]; rfl
  | cons d ds ih =>
    rw [List.length_cons] at h ⊢
    have hroom : found.stored.length < limit := by omega
    have hpush : found.push d = ⟨found.stored ++ [d], found.total + 1⟩ := by
      rw [push, if_pos hroom]
    rw [List.foldl_cons, hpush, ih (by rw [List.length_append, List.length_singleton]; omega)]
    dsimp only
    rw [List.append_assoc, List.singleton_append, Nat.add_assoc, Nat.add_comm 1]

theorem Diagnostics.ofList_of_le {ds : List Diagnostic} (h : ds.length ≤ limit) :
    ofList ds = ⟨ds, ds.length⟩ := by
  rw [ofList, foldl_push (Nat.le_trans (Nat.le_of_eq (Nat.zero_add _)) h)]
  exact congrArg (Diagnostics.mk ds) (Nat.zero_add _)

theorem Lexed.length_report (found : List (Located LexFault)) (r : Lexed) :
    (report found r).faults.length = found.length + r.faults.length :=
  List.length_append

theorem Lexed.length_faults_le (ls : List Lexeme) (s : State) :
    (layout ls s).faults.length ≤ s.budget := by
  fun_induction layout ls s with
  | case1 | case3 => exact Nat.zero_le _
  | case2 s h => exact Nat.one_le_iff_ne_zero.mpr fun hb => h (.inl hb)
  | case4 | case5 | case6 => assumption
  | case7 l ls s hbudget stop span kind fault hl found ih =>
    have hone : found.length ≤ 1 := by
      cases fault <;> simp [found]
    rw [length_report]
    dsimp only [cons] at ih ⊢
    omega
  | case8 l ls s hbudget stop span hl ih =>
    rw [length_report, List.length_singleton]
    dsimp only at ih
    omega
  | case9 l ls s hbudget c hl found ih =>
    have hfound : found.length ≤ s.budget := List.length_take_le ..
    rw [length_report]
    dsimp only at ih
    omega

theorem Parsed.length_faults_le (budget : Nat) (ts : List Token) :
    (lines budget ts).faults.length ≤ budget := by
  fun_induction lines budget ts with
  | case1 | case2 => exact Nat.zero_le _
  | case3 budget t rest hgoes d e hread tail ih => exact ih
  | case4 budget t rest hgoes fault hread tail ih =>
    have hbudget : budget ≠ 0 := fun hb => hgoes (.inr hb)
    exact Nat.le_trans (Nat.succ_le_succ ih) (by omega)

/-! ## Files that do not compile -/

namespace SourceFile
variable {f : SourceFile}

theorem holds_start (f : SourceFile) : f.Holds 1 1 := holds_after (List.nil_append _).symm

/-- What covers tokens of the file points into it. -/
theorem pointsInto_of_covers (hlex : (lex f.text).faults = []) {ts : List Token} {s : Span}
    (hts : ts.Sublist (lex f.text).tokens) (h : Covers ts s) : s.PointsInto f := by
  have hstand := standIn_lex hlex
  have hord := hstand.pairwise_follows.sublist hts
  obtain ⟨⟨t, ht, hfirst⟩, ⟨u, hu, hlast⟩⟩ := h
  have hmem := List.mem_of_mem_head? ht
  have hpoints := hstand.pointsInto (List.nil_append _).symm (hts.subset hmem)
  refine ⟨?_, ?_⟩
  · obtain ⟨hline, hcolumn⟩ := Prod.mk.inj hfirst
    rw [hline, hcolumn]
    exact hpoints.holds
  · rw [hfirst, hlast]
    exact Span.before_trans hpoints.ordered (Token.before_last hord hu hmem)

/-- What parsing reports points into the file, and nothing of it is left out. -/
theorem pointsInto_of_parse (f : SourceFile) :
    f.parse.diagnostics.total = f.parse.diagnostics.stored.length ∧
      ∀ d ∈ f.parse.diagnostics.stored, d.PointsInto f := by
  have hshown {α : Type} {xs : List (Located α)} (hlength : xs.length ≤ Diagnostics.limit)
      (h : ∀ x ∈ xs, x.span.PointsInto f) (code : α → Code) (message : α → String) :
      let ds := Diagnostics.ofList
        (xs.map fun x => .inFile f (code x.cause) (message x.cause) x.span)
      ds.total = ds.stored.length ∧ ∀ d ∈ ds.stored, d.PointsInto f := by
    rw [Diagnostics.ofList_of_le (by rwa [List.length_map])]
    refine ⟨rfl, fun d hd => ?_⟩
    obtain ⟨x, hx, rfl⟩ := List.mem_map.mp hd
    exact Diagnostic.pointsInto_inFile (h x hx) none
  unfold parse
  dsimp only
  split
  · rename_i hempty
    have hlex := List.isEmpty_iff.mp hempty
    have hstand := standIn_lex hlex
    refine hshown (Parsed.length_faults_le _ _) (fun x hx => ?_) ParseFault.code ParseFault.message
    rcases (Parsed.standsIn_ofTokens hstand.pairwise_follows).faults x hx with hmem | hstart
    · obtain ⟨t, ht, hspan⟩ := List.mem_map.mp hmem
      rw [← hspan]
      exact hstand.pointsInto (List.nil_append _).symm ht
    · rw [hstart]
      exact Span.pointsInto_point f.holds_start
  · exact hshown (Lexed.length_faults_le _ _) f.pointsInto_of_mem_lex LexFault.code LexFault.message

/-- A fault in a declaration of the file points into the file, within the declaration. -/
theorem pointsInto_of_add (hclean : f.parse.diagnostics.hasErrors = false) {decl : Declaration}
    (hdecl : decl ∈ f.parse.declarations) {b : Builder} {fault : Fault}
    (hadd : b.add decl = .error fault) :
    (fault.diagnostic f).PointsInto f ∧ decl.span.Within (fault.diagnostic f).span := by
  obtain ⟨hlex, hdecls⟩ := lex_of_parse hclean
  have hord := (standIn_lex hlex).pairwise_follows
  rw [hdecls] at hdecl
  obtain ⟨ts, hts, hfrom⟩ := (Parsed.standsIn_ofTokens hord).declarations.exists_of_mem hdecl
  have hplaced := Builder.placed_add b decl
  rw [hadd] at hplaced
  cases hplaced with
  | error hspan hs =>
    obtain ⟨us, hus, hcovers⟩ := hfrom.covers_of_has hs
    obtain ⟨hshown, hpoints⟩ :=
      Fault.pointsInto_diagnostic hspan (pointsInto_of_covers hlex (hus.trans hts.sublist) hcovers)
    rw [hshown]
    exact ⟨hpoints, hfrom.covers.within hcovers hus (hord.sublist hts.sublist)⟩

/-- Diagnostics point at real source. When a file does not compile, each of its diagnostics stands
at a place of the file and shows the line there. When its characters and lines are without fault
there is one diagnostic, and it stands within the first declaration that cannot be applied. -/
theorem diagnostics_of_compile {ds : Diagnostics} (h : f.compile = .error ds) :
    ds.total = ds.stored.length ∧ (∀ d ∈ ds.stored, d.PointsInto f) ∧
    (f.parse.diagnostics.hasErrors = false →
      ∃ done decl rest b fault, f.parse.declarations = done ++ decl :: rest ∧
        done.foldlM Builder.add (.ofName (specName f.name)) = .ok b ∧
        b.add decl = .error fault ∧
        ds = ⟨[fault.diagnostic f], 1⟩ ∧ decl.span.Within (fault.diagnostic f).span) := by
  unfold compile at h
  dsimp only at h
  split at h
  · rename_i herrors
    cases h
    obtain ⟨htotal, hpoints⟩ := f.pointsInto_of_parse
    refine ⟨htotal, hpoints, fun hclean => ?_⟩
    rw [hclean] at herrors
    cases herrors
  · rename_i herrors
    have hclean : f.parse.diagnostics.hasErrors = false := by simpa using herrors
    split at h
    · cases h
    · rename_i fault hbuild
      cases h
      obtain ⟨done, decl, rest, b, hdecls, hdone, hadd⟩ := Builder.exists_of_build hbuild
      obtain ⟨hpoints, hwithin⟩ := f.pointsInto_of_add hclean (by rw [hdecls]; simp) hadd
      refine ⟨rfl, ?_, fun _ => ⟨done, decl, rest, b, fault, hdecls, hdone, hadd, rfl, hwithin⟩⟩
      intro d hd
      rw [List.mem_singleton.mp hd]
      exact hpoints

/-- A type that is not known, in a declaration of two lines behind an empty one. -/
theorem diagnostics_of_compile_unknown :
    let f : SourceFile := ⟨"a.spec", "module A\r\n\nspec f(\tx :: [u]) ::\n :ok"⟩
    f.parse.diagnostics.hasErrors = false ∧ ∃ d, f.compile = .error ⟨[d], 1⟩ ∧ d.PointsInto f ∧
      d.code = .unknownType ∧ d.sourceLine = "spec f(\tx :: [u]) ::" ∧
      ∃ decl ∈ f.parse.declarations, decl.span.Within d.span := by
  intro f
  have hclean : f.parse.diagnostics.hasErrors = false := by decide +kernel
  have hcheck : f.check.stored.map (fun d => (d.code, d.sourceLine)) =
      [(.unknownType, "spec f(\tx :: [u]) ::")] := by decide +kernel
  unfold check at hcheck
  cases hcompile : f.compile with
  | ok s =>
    rw [hcompile] at hcheck
    cases hcheck
  | error ds =>
    obtain ⟨-, hpoints, hfault⟩ := diagnostics_of_compile hcompile
    obtain ⟨done, decl, rest, b, fault, hdecls, -, -, rfl, hwithin⟩ := hfault hclean
    rw [hcompile] at hcheck
    obtain ⟨hcode, hline⟩ := Prod.mk.inj (List.cons.inj hcheck).1
    refine ⟨hclean, _, rfl, hpoints _ (List.mem_singleton.mpr rfl), hcode, hline, decl, ?_, hwithin⟩
    rw [hdecls]
    exact List.mem_append_right _ (List.mem_cons_self ..)

end SourceFile

end NativeInterface
