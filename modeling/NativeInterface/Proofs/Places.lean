import NativeInterface.Generate
import NativeInterface.Proofs.ParserKinds
import NativeInterface.Proofs.Unplaced

/-!
# Places have no part in what a file means

Two files of one name whose tokens are of the same kinds compile alike, wherever the tokens stand:
to the same surface, or to diagnostics that say the same. The parser reads kinds
(`Parsed.sameMeaning_ofTokens`) and building forgets places (`Surface.build_unplaced`).
-/

namespace NativeInterface

/-! ## What diagnostics say -/

/-- What a diagnostic says: its code, its message and its suggestion. -/
def Diagnostic.content (d : Diagnostic) : Code × String × Option String :=
  (d.code, d.message, d.suggestion)

/-- How many diagnostics there are, and what each stored one says. -/
def Diagnostics.contents (ds : Diagnostics) : Nat × List (Code × String × Option String) :=
  (ds.total, ds.stored.map (·.content))

namespace Diagnostics

theorem contents_push {found found' : Diagnostics} {d d' : Diagnostic}
    (h : found.contents = found'.contents) (hd : d.content = d'.content) :
    (found.push d).contents = (found'.push d').contents := by
  obtain ⟨htotal, hstored⟩ := Prod.mk.inj h
  have hlength : found.stored.length = found'.stored.length := by
    simpa using congrArg List.length hstored
  simp only [contents, push, hlength, htotal]
  split
  · rw [List.map_append, List.map_append, hstored, List.map_singleton, List.map_singleton, hd]
  · rw [hstored]

theorem contents_ofList {ds ds' : List Diagnostic} (h : ds.map (·.content) = ds'.map (·.content)) :
    (ofList ds).contents = (ofList ds').contents := by
  have step (found found' : Diagnostics) (hfound : found.contents = found'.contents) :
      (ds.foldl push found).contents = (ds'.foldl push found').contents := by
    induction ds generalizing ds' found found' with
    | nil =>
      cases List.map_eq_nil_iff.mp h.symm
      exact hfound
    | cons d ds ih =>
      obtain ⟨d', ds', rfl, hd, hds⟩ := List.map_eq_cons_iff.mp h.symm
      exact ih hds.symm _ _ (contents_push hfound hd.symm)
  exact step empty empty rfl

end Diagnostics

namespace Fault

theorem code_unplaced (fault : Fault) : fault.unplaced.code = fault.code := by
  cases fault <;> rfl

theorem message_unplaced (fault : Fault) : fault.unplaced.message = fault.message := by
  cases fault <;> rfl

theorem suggestion?_unplaced (fault : Fault) : fault.unplaced.suggestion? = fault.suggestion? := by
  cases fault <;> rfl

/-- What is said about a fault depends neither on its place nor on the text of the file. -/
theorem content_diagnostic {fault fault' : Fault} (h : fault.unplaced = fault'.unplaced)
    (f f' : SourceFile) : (fault.diagnostic f).content = (fault'.diagnostic f').content := by
  have hcontent (fault : Fault) (f : SourceFile) : (fault.diagnostic f).content =
      (fault.unplaced.code, fault.unplaced.message, fault.unplaced.suggestion?) := by
    rw [code_unplaced, message_unplaced, suggestion?_unplaced]
    unfold diagnostic
    dsimp only
    split <;> rfl
  rw [hcontent, hcontent, h]

end Fault

/-! ## Files -/

theorem Diagnostics.hasErrors_of_contents {ds ds' : Diagnostics} (h : ds.contents = ds'.contents) :
    ds.hasErrors = ds'.hasErrors := by
  unfold hasErrors
  rw [(Prod.mk.inj h).1]

theorem Parsed.SameMeaning.contents {r r' : Parsed} (h : r.SameMeaning r') (f g : SourceFile) :
    (r.diagnostics f).contents = (r'.diagnostics g).contents := by
  refine Diagnostics.contents_ofList ?_
  let said (cause : ParseFault) : Code × String × Option String := (cause.code, cause.message, none)
  have hsaid : (r.faults.map (·.cause)).map said = (r'.faults.map (·.cause)).map said := by
    rw [h.faults]
  rw [List.map_map, List.map_map] at hsaid ⊢
  exact hsaid

namespace Outcome
variable {α δ ε ε' : Type}

theorem mapError_eq_mapError {x : Except ε α} {y : Except ε' α} {p : ε → δ} {q : ε' → δ}
    (h : x.mapError p = y.mapError q) :
    (∃ a, x = .ok a ∧ y = .ok a) ∨ ∃ d e, x = .error d ∧ y = .error e ∧ p d = q e := by
  cases x with
  | error d =>
    cases y with
    | error e => exact .inr ⟨d, e, rfl, rfl, Except.error.inj h⟩
    | ok b => cases h
  | ok a =>
    cases y with
    | error e => cases h
    | ok b => exact .inl ⟨a, rfl, congrArg Except.ok (Except.ok.inj h).symm⟩

theorem forget_id (x : Except Fault α) : forget id x = x.mapError Fault.unplaced := by
  cases x <;> rfl

end Outcome

namespace SourceFile
variable {f g : SourceFile}

theorem parse_of_lex (h : (lex f.text).faults = []) :
    f.parse = ⟨(Parsed.ofTokens (lex f.text).tokens).declarations,
      (Parsed.ofTokens (lex f.text).tokens).diagnostics f⟩ :=
  if_pos (List.isEmpty_iff.mpr h)

theorem contents_single {fault fault' : Fault} (h : fault.unplaced = fault'.unplaced)
    (f g : SourceFile) : (Diagnostics.single (fault.diagnostic f)).contents =
      (Diagnostics.single (fault'.diagnostic g)).contents :=
  Diagnostics.contents_push rfl (Fault.content_diagnostic h f g)

/-- Files that parse alike compile alike, apart from the places that a failure names. -/
theorem mapError_compile {ds es : List Declaration} {found found' : Diagnostics}
    (hf : f.parse = ⟨ds, found⟩) (hg : g.parse = ⟨es, found'⟩) (hname : f.name = g.name)
    (hds : ds.map Declaration.unplaced = es.map Declaration.unplaced)
    (hfound : found.contents = found'.contents) :
    f.compile.mapError (·.contents) = g.compile.mapError (·.contents) := by
  unfold compile
  rw [hf, hg, ← hname]
  dsimp only
  rw [← Diagnostics.hasErrors_of_contents hfound]
  split
  · exact congrArg Except.error hfound
  · have hbuild := Surface.build_unplaced (specName f.name) ds
    rw [hds, Surface.build_unplaced, Outcome.forget_id, Outcome.forget_id] at hbuild
    rcases Outcome.mapError_eq_mapError hbuild with ⟨s, hes, hds⟩ | ⟨fault, fault', hes, hds, h⟩
    · rw [hds, hes]
    · rw [hds, hes]
      exact congrArg Except.error (contents_single h.symm f g)

/-- Places never influence meaning. Files of one name whose tokens are of the same kinds compile to
the same surface, or fail with diagnostics that say the same one by one; and generating code for
them gives the same header, source and digest, or again diagnostics that say the same. -/
theorem compile_of_kinds (hname : f.name = g.name) (hf : (lex f.text).faults = [])
    (hg : (lex g.text).faults = [])
    (hkinds : (lex f.text).tokens.map (·.kind) = (lex g.text).tokens.map (·.kind)) :
    ((∃ s, f.compile = .ok s ∧ g.compile = .ok s) ∨
      ∃ ds es, f.compile = .error ds ∧ g.compile = .error es ∧ ds.total = es.total ∧
        ds.stored.map (·.content) = es.stored.map (·.content)) ∧
    ∀ config,
      { f.generate config with diagnostics := {} } = { g.generate config with diagnostics := {} } ∧
        (f.generate config).diagnostics.contents = (g.generate config).diagnostics.contents := by
  have hmeaning := Parsed.sameMeaning_ofTokens hkinds
  have hcompile := mapError_compile (parse_of_lex hf) (parse_of_lex hg) hname
    hmeaning.declarations (hmeaning.contents f g)
  rcases Outcome.mapError_eq_mapError hcompile with ⟨s, hf, hg⟩ | ⟨ds, es, hf, hg, h⟩
  · refine ⟨.inl ⟨s, hf, hg⟩, fun config => ?_⟩
    unfold generate
    rw [hf, hg, ← hname]
    dsimp only
    split
    · exact ⟨rfl, rfl⟩
    · exact ⟨rfl, contents_single rfl f g⟩
  · refine ⟨.inr ⟨ds, es, hf, hg, Prod.mk.inj h⟩, fun config => ?_⟩
    unfold generate
    rw [hf, hg]
    exact ⟨rfl, h⟩

/-- Two layouts of a file with an unknown type, and two of one that compiles. -/
theorem compile_of_kinds_layouts :
    let f : SourceFile := ⟨"a.spec", "spec f(x::[u]):: :ok|:no"⟩
    let g : SourceFile := ⟨"a.spec", "# a\nspec f( x :: [u] ) ::\n\n :ok | :no"⟩
    let f' : SourceFile := ⟨"a.spec", "interface NIF\nspec f(x::[int]):: :ok|:no"⟩
    let g' : SourceFile :=
      ⟨"a.spec", "\n\tinterface NIF # c\n\nspec f(x\n:: [int]) :: :ok |\n:no"⟩
    ((lex f.text).tokens.map (·.kind) = (lex g.text).tokens.map (·.kind) ∧ f.check ≠ g.check ∧
      ∃ ds es, f.compile = .error ds ∧ g.compile = .error es ∧ ds.total = es.total ∧
        ds.stored.map (·.content) = es.stored.map (·.content)) ∧
    (lex f'.text).tokens.map (·.kind) = (lex g'.text).tokens.map (·.kind) ∧
      f'.compile.isOk ∧ ∃ s, f'.compile = .ok s ∧ g'.compile = .ok s := by
  intro f g f' g'
  have hkinds : (lex f.text).tokens.map (·.kind) = (lex g.text).tokens.map (·.kind) := by
    decide +kernel
  have hcheck : f.check ≠ g.check := by decide +kernel
  have hkinds' : (lex f'.text).tokens.map (·.kind) = (lex g'.text).tokens.map (·.kind) := by
    decide +kernel
  have hok : f'.compile.isOk := by decide +kernel
  refine ⟨⟨hkinds, hcheck, ?_⟩, hkinds', hok, ?_⟩
  · rcases (compile_of_kinds (f := f) (g := g) rfl (by decide +kernel) (by decide +kernel) hkinds).1
      with ⟨s, hf, hg⟩ | h
    · simp only [check, hf, hg, ne_eq, not_true] at hcheck
    · exact h
  · rcases (compile_of_kinds (f := f') (g := g') rfl (by decide +kernel) (by decide +kernel)
      hkinds').1 with h | ⟨ds, es, hf, -⟩
    · exact h
    · exact absurd ((congrArg Except.isOk hf).symm.trans hok) Bool.false_ne_true

end SourceFile

end NativeInterface
