import NativeInterface.Proofs.Discovered

/-!
# Spec files are isolated from one another

In a run over a project, what becomes of a spec and the artifacts that it has in the end do not
depend on the contents of any other spec file, as long as these are text
(`Run.outcomes_of_replaced`). Each step of the run is one spec: its own step goes the same way on
trees that agree for its site, and the step of any other spec keeps them in agreement.
-/

namespace NativeInterface
open NativeInterface.Path (Plain join)

namespace Site
variable {s s' : Site} {t t' u : Tree} {launch : Launcher} {config : ProjectConfig}
  {spec : SpecFile} {w : World} {path : String} {v : World}

/-! ## Steps -/

/-- The specs of a project keep standing while one of them is worked on. -/
theorem Stands.keeps_site (h : s'.Stands t) (hs : s.Stands t')
    (hkeeps : t.Keeps s.files s.directories t') : s'.Stands t' := by
  by_cases hsame : s'.place = s.place ∧ s'.name = s.name
  · refine ⟨h.reaches.keeps hkeeps, fun backend hbackend place hplace hnode => ?_⟩
    obtain ⟨hplace', hname⟩ := hsame
    have hgenerated : s'.generated = s.generated := by rw [generated, hplace', ← generated]
    have hartifacts : s'.artifacts backend = s.artifacts backend := by
      unfold artifacts artifact output
      rw [hgenerated, hname]
    rw [hartifacts] at hplace
    obtain ⟨hopen, hopen'⟩ := hs.housed backend hbackend place hplace hnode
    refine ⟨by rw [hgenerated, hopen], ?_⟩
    rw [output, hgenerated, ← output, hopen']
  · refine ((Agree.refl h).keeps_other ?_ hkeeps).left
    rwa [Decidable.not_and_iff_or_not] at hsame

/-- What the work on a spec keeps. -/
theorem Stands.generateSpec (h : s.Stands w.tree)
    (hformatter : config.ConfinedTo launch spec.directory spec.name)
    (hdirectory : spec.directory = s.directory) (hname : spec.name = s.name) :
    w.tree.Keeps s.files s.directories ((Run.generateSpec launch config spec).after w).tree ∧
      s.Stands ((Run.generateSpec launch config spec).after w).tree := by
  have hshares : s.Shares w.tree w.tree w.tree w.tree := ⟨.refl h, .refl _, .refl _⟩
  rcases alike_generateSpec hformatter hdirectory hname w w hshares with
    ⟨-, -, -, hafter⟩ | ⟨-, -, -, hafter⟩
  · exact ⟨hafter.keptLeft, hafter.left⟩
  · exact ⟨hafter.keptLeft, hafter.left⟩

/-- The work on a spec itself, in two trees that agree for it. -/
theorem Agree.generateSpec (h : s.Agree w.tree v.tree)
    (hformatter : config.ConfinedTo launch spec.directory spec.name)
    (hdirectory : spec.directory = s.directory) (hname : spec.name = s.name) :
    (Run.generateSpec launch config spec).outcome w =
        (Run.generateSpec launch config spec).outcome v ∧
      s.Agree ((Run.generateSpec launch config spec).after w).tree
        ((Run.generateSpec launch config spec).after v).tree := by
  have hshares : s.Shares w.tree v.tree w.tree v.tree := ⟨h, .refl _, .refl _⟩
  rcases alike_generateSpec hformatter hdirectory hname w v hshares with
    ⟨g, hw, hv, hafter⟩ | ⟨e, hw, hv, hafter⟩
  · exact ⟨hw.trans hv.symm, hafter.toAgree⟩
  · exact ⟨hw.trans hv.symm, hafter.toAgree⟩

/-! ## Runs -/

/-- A spec has a site. For the spec at `path` it is `s`, and for all others it is another one. -/
def Sited (s : Site) (path : String) (t : Tree) (spec : SpecFile) : Prop :=
  ∃ s' : Site, spec.directory = s'.directory ∧ spec.name = s'.name ∧ s'.Stands t ∧
    if spec.path = path then s' = s else s.place ≠ s'.place ∨ s.name ≠ s'.name

theorem Sited.keeps (h : s.Sited path t spec) (hs : s'.Stands t')
    (hkeeps : t.Keeps s'.files s'.directories t') : s.Sited path t' spec := by
  obtain ⟨site, hdirectory, hname, hstands, hsite⟩ := h
  exact ⟨site, hdirectory, hname, hstands.keeps_site hs hkeeps, hsite⟩

/-- One step of two runs, on specs of one path: the trees still agree for the site, all specs still
have theirs, and if the site is that of the specs then the outcomes are the same. -/
theorem Agree.step {spec' : SpecFile} (h : s.Agree w.tree v.tree)
    (hformatter : config.ConfinedTo launch spec.directory spec.name)
    (hformatter' : config.ConfinedTo launch spec'.directory spec'.name)
    (hw : s.Sited path w.tree spec) (hv : s.Sited path v.tree spec')
    (hpath : spec.path = spec'.path) (hsame : spec.path = path → spec = spec') :
    (spec.path = path →
      (Run.generateSpec launch config spec).outcome w =
        (Run.generateSpec launch config spec').outcome v) ∧
    s.Agree ((Run.generateSpec launch config spec).after w).tree
      ((Run.generateSpec launch config spec').after v).tree ∧
    (∀ other, s.Sited path w.tree other →
      s.Sited path ((Run.generateSpec launch config spec).after w).tree other) ∧
    ∀ other, s.Sited path v.tree other →
      s.Sited path ((Run.generateSpec launch config spec').after v).tree other := by
  obtain ⟨s₁, hdirectory, hname, hstands, hsite⟩ := hw
  obtain ⟨s₂, hdirectory', hname', hstands', hsite'⟩ := hv
  obtain ⟨hkeeps, hafter⟩ := hstands.generateSpec hformatter hdirectory hname
  obtain ⟨hkeeps', hafter'⟩ := hstands'.generateSpec hformatter' hdirectory' hname'
  refine ⟨?_, ?_, fun other hother => hother.keeps hafter hkeeps,
    fun other hother => hother.keeps hafter' hkeeps'⟩
  · intro hspec
    cases hsame hspec
    rw [if_pos hspec] at hsite
    cases hsite
    exact (h.generateSpec hformatter hdirectory hname).1
  · by_cases hspec : spec.path = path
    · cases hsame hspec
      rw [if_pos hspec] at hsite
      cases hsite
      exact (h.generateSpec hformatter hdirectory hname).2
    · rw [if_neg hspec] at hsite
      rw [if_neg (hpath ▸ hspec)] at hsite'
      exact ((h.keeps_other hsite hkeeps).symm.keeps_other hsite' hkeeps').symm

/-- Two runs over specs of the same paths. -/
theorem Agree.run {f f' : String → SpecFile} {paths : List String} (h : s.Agree w.tree v.tree)
    (hformatter : ∀ p ∈ paths, config.ConfinedTo launch (f p).directory (f p).name)
    (hformatter' : ∀ p ∈ paths, config.ConfinedTo launch (f' p).directory (f' p).name)
    (hf : ∀ p, (f p).path = p) (hf' : ∀ p, (f' p).path = p) (hsame : f path = f' path)
    (hw : ∀ p ∈ paths, s.Sited path w.tree (f p)) (hv : ∀ p ∈ paths, s.Sited path v.tree (f' p)) :
    ∃ es es', ((paths.map f).mapM (Run.attempt launch config)).outcome w = .ok es ∧
      ((paths.map f').mapM (Run.attempt launch config)).outcome v = .ok es' ∧
      es.map Prod.fst = paths ∧ es'.map Prod.fst = paths ∧
      (∀ o, (path, o) ∈ es ↔ (path, o) ∈ es') ∧
      s.Agree (((paths.map f).mapM (Run.attempt launch config)).after w).tree
        (((paths.map f').mapM (Run.attempt launch config)).after v).tree := by
  induction paths generalizing w v with
  | nil => exact ⟨[], [], rfl, rfl, rfl, rfl, fun _ => .rfl, h⟩
  | cons p paths ih =>
    have hpath : (f p).path = (f' p).path := (hf p).trans (hf' p).symm
    obtain ⟨hequal, hagree, hleft, hright⟩ := h.step (hformatter p List.mem_cons_self)
      (hformatter' p List.mem_cons_self) (hw p List.mem_cons_self) (hv p List.mem_cons_self) hpath
      fun hp => by rw [← hp, hf p] at hsame; exact hsame
    rw [← Run.tree_attempt, ← Run.tree_attempt] at hagree
    have hattempt := Run.outcome_attempt launch config (f p) w
    have hattempt' := Run.outcome_attempt launch config (f' p) v
    rw [hf] at hattempt hequal
    rw [hf'] at hattempt'
    obtain ⟨es, es', hes, hes', hpaths, hpaths', hmem, hafter⟩ := ih hagree
      (fun q hq => hformatter q (List.mem_cons_of_mem _ hq))
      (fun q hq => hformatter' q (List.mem_cons_of_mem _ hq))
      (fun q hq => Run.tree_attempt launch config (f p) w ▸
        hleft _ (hw q (List.mem_cons_of_mem _ hq)))
      (fun q hq => Run.tree_attempt launch config (f' p) v ▸
        hright _ (hv q (List.mem_cons_of_mem _ hq)))
    refine ⟨(p, (Run.generateSpec launch config (f p)).outcome w) :: es,
      (p, (Run.generateSpec launch config (f' p)).outcome v) :: es',
      ?_, ?_, ?_, ?_, fun o => ?_, ?_⟩
    · rw [List.map_cons, List.mapM_cons, Run.outcome_bind_of_ok hattempt,
        Run.outcome_bind_of_ok hes]
      rfl
    · rw [List.map_cons, List.mapM_cons, Run.outcome_bind_of_ok hattempt',
        Run.outcome_bind_of_ok hes']
      rfl
    · rw [List.map_cons, hpaths]
    · rw [List.map_cons, hpaths']
    · rw [List.mem_cons, List.mem_cons, Prod.mk.injEq, Prod.mk.injEq, hmem]
      refine or_congr_left (and_congr_right fun hp => ?_)
      rw [hequal hp.symm]
    · rw [List.map_cons, List.map_cons, List.mapM_cons, List.mapM_cons,
        Run.after_bind_of_ok hattempt, Run.after_bind_of_ok hattempt', Run.after_bind_of_ok hes,
        Run.after_bind_of_ok hes']
      exact hafter

end Site

/-! ## Projects -/

namespace Discovery
variable {t : Tree} {root path path' : String} {paths : List String}

/-- If specs at two paths can be read, all that can be read have a site. -/
theorem exists_found (hwf : t.WellFormed) (hpaths : specPaths t root = .ok paths)
    (hread : ∀ path ∈ paths, ∃ text, t.read path = .ok text) (h : path ∈ paths)
    (h' : path' ∈ paths) (hne : path ≠ path') :
    ∀ path ∈ paths, ∃ front, ∃ s : Site, s.Found t root front path := by
  have hfound (path : String) (h : path ∈ paths) (hroot : path ≠ root) :
      ∃ front, ∃ s : Site, s.Found t root front path := by
    obtain ⟨text, htext⟩ := hread path h
    obtain ⟨front, base, hfront, hbase, hpath⟩ := (spec_cases hwf hpaths h).resolve_left hroot
    exact ⟨front, Site.exists_found hwf hfront hbase hpath htext⟩
  have hstart : ∃ start, t.Reaches root start := by
    by_cases hroot : path = root
    · obtain ⟨front, s, hs⟩ := hfound path' h' (hroot ▸ hne.symm)
      exact hs.below.imp fun _ hstart => hstart.1
    · obtain ⟨front, s, hs⟩ := hfound path h hroot
      exact hs.below.imp fun _ hstart => hstart.1
  obtain ⟨start, hstart⟩ := hstart
  refine fun path h => hfound path h ?_
  rintro rfl
  obtain ⟨text, htext⟩ := hread path h
  exact hstart.not_read hwf htext

end Discovery

/-- A project whose configuration and whose specs can be read, each spec with a site. -/
structure Readable (root : String) (config : ProjectConfig) (paths : List String) (w : World) :
    Prop where
  configured : (Run.loadConfig root).outcome w = .ok config
  listed : Discovery.specPaths w.tree root = .ok paths
  texts : ∀ path ∈ paths, ∃ text, w.tree.read path = .ok text
  found : ∀ path ∈ paths, ∃ front, ∃ s : Site, s.Found w.tree root front path

namespace Readable
variable {launch : Launcher} {root path path' : String} {config : ProjectConfig}
  {paths : List String} {w u : World} {s s' : Site} {front front' : List String}

theorem tree_loadConfig (root : String) (w : World) :
    ((Run.loadConfig root).after w).tree = w.tree :=
  (Run.run_loadConfig rfl w).2

/-- A run that gives a report on specs at two paths has read all of the project. -/
theorem of_generate {r : Report} (hwf : w.tree.WellFormed)
    (h : (Run.generate launch root).outcome w = .ok r)
    (hpaths : Discovery.specPaths w.tree root = .ok paths) (hpath : path ∈ paths)
    (hpath' : path' ∈ paths) (hne : path ≠ path') : ∃ config, Readable root config paths w := by
  obtain ⟨config, hconfig, h⟩ := Run.exists_of_outcome_bind h
  obtain ⟨specs, hspecs, -⟩ := Run.exists_of_outcome_bind h
  have hread : ∀ path ∈ paths, ∃ text, w.tree.read path = .ok text := by
    rw [← tree_loadConfig root w] at hpaths ⊢
    exact Run.exists_text_of_discover hpaths hspecs
  exact ⟨config, hconfig, hpaths, hread,
    Discovery.exists_found hwf hpaths hread hpath hpath' hne⟩

/-- The run over a project that can be read is a run over its specs. -/
theorem exists_of_outcomes (h : Readable root config paths w) :
    ∃ v : World, v.tree = w.tree ∧ (Run.outcomes launch root).outcome w =
        ((paths.map (Run.specAt w.tree)).mapM (Run.attempt launch config)).outcome v ∧
      (Run.outcomes launch root).after w =
        ((paths.map (Run.specAt w.tree)).mapM (Run.attempt launch config)).after v := by
  have htree := tree_loadConfig root w
  have hpaths := h.listed
  have htexts := h.texts
  rw [← htree] at hpaths htexts ⊢
  obtain ⟨hspecs, hafter⟩ := Run.run_discover hpaths htexts
  refine ⟨(Run.discover root).after ((Run.loadConfig root).after w), hafter, ?_, ?_⟩
  · rw [Run.outcomes, Run.outcome_bind_of_ok h.configured, Run.outcome_bind_of_ok hspecs]
  · rw [Run.outcomes, Run.after_bind_of_ok h.configured, Run.after_bind_of_ok hspecs]

theorem sited (h : Readable root config paths w) (hs : s.Found w.tree root front path) :
    ∀ p ∈ paths, s.Sited path w.tree (Run.specAt w.tree p) := by
  intro p hp
  by_cases hpath : p = path
  · rw [hpath]
    exact ⟨s, (Run.directory_specAt _ _).trans hs.directory_eq.symm,
      (Run.name_specAt _ _).trans hs.name_eq.symm, hs.stands, by rw [if_pos]; rfl⟩
  · obtain ⟨front', s', hs'⟩ := h.found p hp
    have hne := hs.ne hs' (Ne.symm hpath)
    exact ⟨s', (Run.directory_specAt _ _).trans hs'.directory_eq.symm,
      (Run.name_specAt _ _).trans hs'.name_eq.symm, hs'.stands, by rwa [if_neg]; exact hpath⟩

/-- Two projects with the same spec at a path, and the same paths at all, in trees that agree for
the site of that spec. -/
theorem outcomes_of_agree (h : Readable root config paths w) (h' : Readable root config paths u)
    (hs : s.Found w.tree root front path) (hs' : s.Found u.tree root front path)
    (hagree : s.Agree w.tree u.tree) (hread : w.tree.read path = u.tree.read path)
    (hformatter : ∀ p ∈ paths, config.ConfinedTo launch ((Path.parent? p).getD "") (specName p)) :
    ∃ es es', (Run.outcomes launch root).outcome w = .ok es ∧
      (Run.outcomes launch root).outcome u = .ok es' ∧
      es.map Prod.fst = paths ∧ es'.map Prod.fst = paths ∧
      (∀ o, (path, o) ∈ es ↔ (path, o) ∈ es') ∧
      s.Agree ((Run.outcomes launch root).after w).tree
        ((Run.outcomes launch root).after u).tree := by
  obtain ⟨v, hv, houtcome, hafter⟩ := h.exists_of_outcomes
  obtain ⟨v', hv', houtcome', hafter'⟩ := h'.exists_of_outcomes
  have hsame : Run.specAt w.tree path = Run.specAt u.tree path := by
    rw [Run.specAt, hread, Run.specAt]
  have hconfined (t : Tree) : ∀ p ∈ paths,
      config.ConfinedTo launch (Run.specAt t p).directory (Run.specAt t p).name := by
    intro p hp
    rw [Run.directory_specAt, Run.name_specAt]
    exact hformatter p hp
  rw [houtcome, houtcome', hafter, hafter']
  rw [← hv, ← hv'] at hagree
  exact hagree.run (hconfined w.tree) (hconfined u.tree) (fun _ => rfl) (fun _ => rfl) hsame
    (hv ▸ h.sited hs) (hv' ▸ h'.sited hs')

/-- The configuration is not a spec file. -/
theorem loadConfig_of_keeps {start : Place} (hroot : w.tree.Reaches root start)
    (hkeeps : w.tree.Keeps [s.spec] [] u.tree) :
    (Run.loadConfig root).outcome u = (Run.loadConfig root).outcome w := by
  have hplain : Plain Event.configFile := by decide
  have hplace : start ++ [Event.configFile] ∉ [s.spec] := by
    intro hmem
    obtain ⟨-, hname⟩ := List.append_inj' (List.mem_singleton.mp hmem) rfl
    exact Site.append_specSuffix_ne (by simp) (List.singleton_inj.mp hname).symm
  have hstat : u.tree.stat (join root Event.configFile) =
      w.tree.stat (join root Event.configFile) := by
    rw [Tree.stat_join (hroot.keeps hkeeps) hplain, Tree.stat_join hroot hplain,
      hkeeps.get?_eq hplace List.not_mem_nil]
  rw [(Run.run_loadConfig rfl u).1, (Run.run_loadConfig rfl w).1]
  unfold Tree.isFile Tree.read Tree.readBytes
  rw [hstat]

/-- A project whose configuration and whose specs can be read gets a report. -/
theorem exists_report (hconfig : (Run.loadConfig root).outcome w = .ok config)
    (hpaths : Discovery.specPaths w.tree root = .ok paths)
    (h : ∀ p ∈ paths, ∃ text, w.tree.read p = .ok text) :
    ∃ r, (Run.generate launch root).outcome w = .ok r := by
  rw [← tree_loadConfig root w] at hpaths h
  have hspecs := (Run.run_discover hpaths h).1
  rw [Run.generate, Run.outcome_bind_of_ok hconfig, Run.outcome_bind_of_ok hspecs]
  obtain ⟨es, -, hfold, -⟩ := Run.run_foldlM_addSpec launch config _ {} _
  rw [Run.outcome_bind_of_ok hfold]
  exact ⟨_, rfl⟩

/-- One spec that cannot be read ends the run. -/
theorem outcome_of_unreadable {e : FileError}
    (hconfig : (Run.loadConfig root).outcome w = .ok config)
    (hpaths : Discovery.specPaths w.tree root = .ok paths) (hpath : path ∈ paths)
    (he : w.tree.read path = .error e)
    (h : ∀ p ∈ paths, p ≠ path → ∃ text, w.tree.read p = .ok text) :
    (Run.generate launch root).outcome w = .error (.access path e) := by
  rw [← tree_loadConfig root w] at hpaths he h
  rw [Run.generate, Run.outcome_bind_of_ok hconfig]
  exact Run.outcome_bind_of_error (Run.outcome_discover_of_error hpaths hpath he h)

section
variable (h : Readable root config paths w) (hwf : w.tree.WellFormed) (hpath : path ∈ paths)
  (hs : s.Found w.tree root front path)
include h hpath hs

theorem configured_put (bytes : List UInt8) : (Run.loadConfig root).outcome
    { w with tree := w.tree.put s.spec (.file bytes) } = .ok config := by
  obtain ⟨old, hold⟩ := h.texts path hpath
  obtain ⟨start, hroot, -⟩ := hs.below
  exact (loadConfig_of_keeps hroot (hs.put hold bytes)).trans h.configured

theorem texts_put (bytes : List UInt8) : ∀ p ∈ paths, p ≠ path →
    ∃ text, (w.tree.put s.spec (.file bytes)).read p = .ok text := by
  intro p hp hne
  obtain ⟨old, hold⟩ := h.texts path hpath
  obtain ⟨front', s', hs'⟩ := h.found p hp
  obtain ⟨text, htext⟩ := h.texts p hp
  exact ⟨text, (hs'.read_put_other (hs'.ne hs hne) (hs.put hold bytes)).trans htext⟩

include hwf

theorem listed_put (bytes : List UInt8) :
    Discovery.specPaths (w.tree.put s.spec (.file bytes)) root = .ok paths := by
  obtain ⟨old, hold⟩ := h.texts path hpath
  obtain ⟨bytes', hnode⟩ := (hs.file hold).2
  obtain ⟨start, hroot, -⟩ := hs.below
  exact Tree.specPaths_put hwf hroot (by simp [Site.spec]) hnode h.listed

/-- The file of a spec gets other contents that are text. -/
theorem replace {bytes : List UInt8} {text : String} (htext : Tree.textOf? bytes = some text) :
    Readable root config paths { w with tree := w.tree.put s.spec (.file bytes) } := by
  obtain ⟨old, hold⟩ := h.texts path hpath
  refine ⟨h.configured_put hpath hs bytes, h.listed_put hwf hpath hs bytes, fun p hp => ?_,
    fun p hp => ?_⟩
  · by_cases hne : p = path
    · exact ⟨text, by rw [hne, hs.read_put hold, htext]⟩
    · exact h.texts_put hpath hs bytes p hp hne
  · obtain ⟨front', s', hs'⟩ := h.found p hp
    exact ⟨front', s', hs'.keeps (hs.put hold bytes)⟩

/-- The file of a spec gets other contents that are no text. -/
theorem outcome_of_invalid {bytes : List UInt8} (htext : Tree.textOf? bytes = none) :
    (Run.generate launch root).outcome { w with tree := w.tree.put s.spec (.file bytes) } =
      .error (.access path .invalidData) := by
  obtain ⟨old, hold⟩ := h.texts path hpath
  have hread := hs.read_put hold bytes
  rw [htext] at hread
  exact outcome_of_unreadable (h.configured_put hpath hs bytes) (h.listed_put hwf hpath hs bytes)
    hpath hread (h.texts_put hpath hs bytes)

end

end Readable

namespace Run
variable {launch : Launcher} {w : World} {root : String} {paths : List String}

theorem ok_of_toOption {ε α : Type} {x : Except ε α} {a : α} (h : x.toOption = some a) :
    x = .ok a := by
  cases x with
  | error e => cases h
  | ok b => exact congrArg Except.ok (Option.some.inj h)

/-- The texts of specs in a tree that is known. -/
theorem exists_texts {t : Tree} (h : ∀ path ∈ paths, (t.read path).toOption.isSome) :
    ∀ path ∈ paths, ∃ text, t.read path = .ok text := by
  intro path hpath
  obtain ⟨text, htext⟩ := Option.isSome_iff_exists.mp (h path hpath)
  exact ⟨text, ok_of_toOption htext⟩

/-- Spec files are isolated from one another. In a run that gives a report, let the file of one spec
get other contents. If these are text, the run gives a report again, and for every other spec it
lists the same outcome and leaves the same artifacts. If they are not, the run fails with that file
and reports on no spec at all. -/
theorem outcomes_of_replaced {r : Report} {path path' : String} (bytes : List UInt8)
    (hwf : w.tree.WellFormed) (hrun : (generate launch root).outcome w = .ok r)
    (hpaths : Discovery.specPaths w.tree root = .ok paths) (hpath : path ∈ paths)
    (hpath' : path' ∈ paths) (hne : path ≠ path')
    (hformatter : ∀ config, (loadConfig root).outcome w = .ok config →
      ∀ p ∈ paths, config.ConfinedTo launch ((Path.parent? p).getD "") (specName p)) :
    ∃ t', w.tree.write path' bytes = .ok t' ∧
      match Tree.textOf? bytes with
      | none => (generate launch root).outcome { w with tree := t' } =
        .error (.access path' .invalidData)
      | some _ => ∃ es es', (outcomes launch root).outcome w = .ok es ∧ r = .of es ∧
        (outcomes launch root).outcome { w with tree := t' } = .ok es' ∧
        (generate launch root).outcome { w with tree := t' } = .ok (.of es') ∧
        es.map Prod.fst = paths ∧ es'.map Prod.fst = paths ∧
        (∀ o, (path, o) ∈ es ↔ (path, o) ∈ es') ∧
        ∀ backend ∈ Registry.builtin.names,
          let a := Artifacts.of ((Path.parent? path).getD "") (specName path) backend
          ∀ file ∈ [a.header, a.source], ((generate launch root).after w).tree.contents? file =
            ((generate launch root).after { w with tree := t' }).tree.contents? file := by
  obtain ⟨config, hproject⟩ := Readable.of_generate hwf hrun hpaths hpath hpath' hne
  obtain ⟨front, s, hs⟩ := hproject.found path hpath
  obtain ⟨front', s', hs'⟩ := hproject.found path' hpath'
  obtain ⟨old, hold⟩ := hproject.texts path' hpath'
  have hkeeps := hs'.put hold bytes
  refine ⟨_, hs'.write hold bytes, ?_⟩
  cases htext : Tree.textOf? bytes with
  | none => exact hproject.outcome_of_invalid hwf hpath' hs' htext
  | some text =>
    obtain ⟨es, es', hes, hes', hfst, hfst', hmem, hagree⟩ := hproject.outcomes_of_agree
      (hproject.replace hwf hpath' hs' htext) hs (hs.keeps hkeeps)
      (hs.stands.agree_spec hkeeps).symm (hs.read_put_other (hs.ne hs' hne) hkeeps).symm
      (hformatter config hproject.configured)
    refine ⟨es, es', hes, ?_, hes', ?_, hfst, hfst', hmem, fun backend hbackend file hfile => ?_⟩
    · rw [(outcome_generate launch root w).1, hes] at hrun
      exact (Except.ok.inj hrun).symm
    · rw [(outcome_generate launch root _).1, hes']
      rfl
    · rw [← hs.directory_eq, ← hs.name_eq] at hfile
      obtain ⟨ending, hmem, rfl⟩ :=
        List.mem_map (f := s.path backend) (l := [".h", ".c"]).mp hfile
      rw [(outcome_generate launch root _).2, (outcome_generate launch root _).2]
      exact hagree.contents? hbackend (List.mem_of_mem_take (i := 2) hmem)

/-- A spec that no longer compiles beside one that does, with a formatter that puts a line feed at
the end of files. -/
theorem outcomes_of_replaced_broken :
    let launch := Launcher.rewriting (· ++ [10])
    let w : World := { tree := ⟨[(["p"], .directory),
      (["p", "bridgespec.toml"], .file (Tree.bytesOf "formatter = \"fmt -s\"")),
      (["p", "a.bspec"], .file (Tree.bytesOf "interface NIF\nspec f() :: :ok")),
      (["p", "b.bspec"], .file (Tree.bytesOf "interface NIF\nspec g() :: :ok"))]⟩ }
    ∃ r, (generate launch "p").outcome w = .ok r ∧
      Discovery.specPaths w.tree "p" = .ok ["p/a.bspec", "p/b.bspec"] ∧
      ∃ t', w.tree.write "p/b.bspec" (Tree.bytesOf "spec g(") = .ok t' ∧
        ∃ es es', r = .of es ∧ (generate launch "p").outcome { w with tree := t' } = .ok (.of es') ∧
          (∀ o, ("p/a.bspec", o) ∈ es ↔ ("p/a.bspec", o) ∈ es') ∧
          ((generate launch "p").after w).tree.contents? "p/_generated/nif/a.h" =
            ((generate launch "p").after { w with tree := t' }).tree.contents?
              "p/_generated/nif/a.h" := by
  intro launch w
  have hconfig : (loadConfig "p").outcome w = .ok ⟨some "fmt -s", {}⟩ :=
    ok_of_toOption (by decide +kernel)
  have hstat : w.tree.stat "p" = .ok (["p"], .directory) := ok_of_toOption (by decide +kernel)
  have hpaths : Discovery.specPaths w.tree "p" = .ok ["p/a.bspec", "p/b.bspec"] :=
    Discovery.specPaths_of_sorted hstat (by decide +kernel) (by decide +kernel)
  obtain ⟨r, hr⟩ := Readable.exists_report hconfig hpaths (exists_texts (by decide +kernel))
  have hformatter : ∀ config, (loadConfig "p").outcome w = .ok config →
      ∀ p ∈ ["p/a.bspec", "p/b.bspec"],
        config.ConfinedTo launch ((Path.parent? p).getD "") (specName p) := by
    intro config hconfig' p hp formatter hformatter backend _
    cases hconfig.symm.trans hconfig'
    cases hformatter
    have hwords : Text.words "fmt -s" = ["fmt", "-s"] := by decide
    have hnames : ∀ p ∈ ["p/a.bspec", "p/b.bspec"], '/' ∉ (specName p).toList := by decide +kernel
    exact .rewriting (hnames p hp) hwords (by decide)
  have hpath : "p/a.bspec" ∈ ["p/a.bspec", "p/b.bspec"] := by decide
  have hpath' : "p/b.bspec" ∈ ["p/a.bspec", "p/b.bspec"] := by decide
  obtain ⟨t', hwrite, hreplaced⟩ := outcomes_of_replaced (Tree.bytesOf "spec g(")
    (Tree.wellFormed_of_nodes (by decide +kernel)) hr hpaths hpath hpath' (by decide) hformatter
  have htext : Tree.textOf? (Tree.bytesOf "spec g(") = some "spec g(" := by decide +kernel
  rw [htext] at hreplaced
  obtain ⟨es, es', -, hes, -, hes', -, -, hmem, hcontents⟩ := hreplaced
  exact ⟨r, hr, hpaths, t', hwrite, es, es', hes, hes', hmem,
    hcontents "nif" (by decide) "p/_generated/nif/a.h" (by decide +kernel)⟩

/-- A spec file that is no text any more leaves its neighbour without a report, and a formatter that
is run for one spec rewrites the header of another if it is told to. -/
theorem generate_of_invalid_neighbour :
    let launch := Launcher.rewriting (· ++ [10])
    let w : World := { tree := ⟨[(["p"], .directory),
      (["p", "a.bspec"], .file (Tree.bytesOf "interface NIF\nspec f() :: :ok")),
      (["p", "b.bspec"], .file (Tree.bytesOf "interface NIF\nspec g() :: :ok"))]⟩ }
    let t : Tree := ⟨[(["p"], .directory), (["p", "_generated"], .directory),
      (["p", "_generated", "nif"], .directory),
      (["p", "_generated", "nif", "a.h"], .file (Tree.bytesOf "ok")),
      (["p", "_generated", "nif", "b.h"], .file []), (["p", "_generated", "nif", "b.c"], .file [])]⟩
    ((∃ r, (generate launch "p").outcome w = .ok r) ∧
      ∃ t', w.tree.write "p/b.bspec" [0xff] = .ok t' ∧
        (generate launch "p").outcome { w with tree := t' } =
          .error (.access "p/b.bspec" .invalidData)) ∧
    (formatTree launch "fmt -i p/_generated/nif/a.h" (.of "p" "b" "nif") t).contents?
      "p/_generated/nif/a.h" = some (Tree.bytesOf "ok\n") := by
  intro launch w t
  have hconfig : (loadConfig "p").outcome w = .ok {} := ok_of_toOption (by decide +kernel)
  have hstat : w.tree.stat "p" = .ok (["p"], .directory) := ok_of_toOption (by decide +kernel)
  have hpaths : Discovery.specPaths w.tree "p" = .ok ["p/a.bspec", "p/b.bspec"] :=
    Discovery.specPaths_of_sorted hstat (by decide +kernel) (by decide +kernel)
  refine ⟨⟨Readable.exists_report hconfig hpaths (exists_texts (by decide +kernel)), ?_⟩,
    by decide +kernel⟩
  let t' : Tree := w.tree.put ["p", "b.bspec"] (.file [0xff])
  have hstat' : t'.stat "p" = .ok (["p"], .directory) := ok_of_toOption (by decide +kernel)
  have hread : t'.read "p/b.bspec" = .error .invalidData := by
    have hfile : t'.stat "p/b.bspec" = .ok (["p", "b.bspec"], .file [0xff]) :=
      ok_of_toOption (by decide +kernel)
    have htext : Tree.textOf? [0xff] = none := by decide +kernel
    unfold Tree.read Tree.readBytes
    rw [hfile]
    dsimp only [bind, Except.bind]
    rw [htext]
  have hconfig' : (loadConfig "p").outcome { w with tree := t' } = .ok {} :=
    ok_of_toOption (by decide +kernel)
  have hpaths' : Discovery.specPaths t' "p" = .ok ["p/a.bspec", "p/b.bspec"] :=
    Discovery.specPaths_of_sorted hstat' (by decide +kernel) (by decide +kernel)
  have htexts : ∀ path ∈ ["p/a.bspec"], ∃ text, t'.read path = .ok text :=
    exists_texts (by decide +kernel)
  refine ⟨t', ok_of_toOption (by decide +kernel), Readable.outcome_of_unreadable hconfig' hpaths'
    (by decide) hread fun path hpath hne => htexts path ?_⟩
  simpa [hne] using hpath

end Run

end NativeInterface
