import NativeInterface.Proofs.Isolation
import NativeInterface.Proofs.Rediscovery

/-!
# Generating twice

Without a formatter, a run over a project comes down to the edits of its specs, and these agree with
each other. A second run finds the same specs with the same texts, makes the same edits, and so
changes nothing and reports the same (`Run.generate_again`).
-/

namespace NativeInterface
open NativeInterface.Path (Plain join)

namespace Run
variable {launch : Launcher} {config : ProjectConfig} {t₀ t t' : Tree} {spec : SpecFile}

theorem Turns.attempt {o : Except Failure Generated}
    (h : Turns (generateSpec launch config spec) t o t') :
    Turns (attempt launch config spec) t (.ok (spec.path, o)) t' := by
  intro w hw
  obtain ⟨houtcome, htree⟩ := h w hw
  rw [outcome_attempt, tree_attempt, houtcome]
  exact ⟨rfl, htree⟩

/-! ## Specs with their sites -/

/-- The path of a spec with its site. -/
abbrev Job := String × Site

/-- What a spec comes down to when it is worked on in a project. -/
def jobPlan (config : ProjectConfig) (t : Tree) (job : Job) : Plan Generated :=
  job.2.specPlan config (specAt t job.1) t

/-- What a run that started with a tree has kept: directories, sites and plans. -/
structure Steady (config : ProjectConfig) (jobs : List Job) (t₀ t : Tree) : Prop where
  stays : ∀ place, t₀.get? place = some .directory → t.get? place = some .directory
  sited : ∀ job ∈ jobs, (specAt t₀ job.1).directory = job.2.directory ∧
    (specAt t₀ job.1).name = job.2.name
  stands : ∀ job ∈ jobs, job.2.Stands t
  plan : ∀ job ∈ jobs, job.2.specPlan config (specAt t₀ job.1) t = jobPlan config t₀ job

namespace Steady
variable {jobs jobs' : List Job} {job : Job}

/-- One spec. -/
theorem step (launch : Launcher) (h : Steady config jobs t₀ t)
    (hformatter : config.formatter = none) (hjob : job ∈ jobs) :
    Turns (generateSpec launch config (specAt t₀ job.1)) t (jobPlan config t₀ job).outcome
        (t.edits (jobPlan config t₀ job).edits) ∧
      Steady config jobs t₀ (t.edits (jobPlan config t₀ job).edits) := by
  obtain ⟨hdirectory, hname⟩ := h.sited job hjob
  have hturns := Site.turns_generateSpec launch (h.stands job hjob) hformatter hdirectory hname
  rw [h.plan job hjob] at hturns
  have hconfined : config.ConfinedTo launch (specAt t₀ job.1).directory
      (specAt t₀ job.1).name := by
    intro formatter hmem
    rw [hformatter] at hmem
    cases hmem
  let w : World := { tree := t }
  have hw : w.tree = t := rfl
  have hstands : job.2.Stands w.tree := h.stands job hjob
  obtain ⟨hkeeps, hstands'⟩ := hstands.generateSpec hconfined hdirectory hname
  rw [(hturns w hw).2] at hkeeps hstands'
  refine ⟨hturns, fun place hplace => hkeeps.stays place (h.stays place hplace), h.sited,
    fun other hother => (h.stands other hother).keeps_site hstands' hkeeps, fun other hother => ?_⟩
  rw [Site.specPlan_of_keeps hkeeps]
  exact h.plan other hother

/-- All specs, one behind the other. -/
theorem run (launch : Launcher) (h : Steady config jobs t₀ t)
    (hformatter : config.formatter = none) (hjobs : jobs' ⊆ jobs) :
    Turns ((jobs'.map fun job => specAt t₀ job.1).mapM (attempt launch config)) t
        (.ok (jobs'.map fun job => (job.1, (jobPlan config t₀ job).outcome)))
        (t.edits (jobs'.flatMap fun job => (jobPlan config t₀ job).edits)) ∧
      Steady config jobs t₀ (t.edits (jobs'.flatMap fun job => (jobPlan config t₀ job).edits)) := by
  induction jobs' generalizing t with
  | nil => exact ⟨.pure _ _, h⟩
  | cons job jobs' ih =>
    obtain ⟨hjob, hjobs⟩ := List.cons_subset.mp hjobs
    obtain ⟨hturns, hstep⟩ := h.step launch hformatter hjob
    obtain ⟨hrest, hsteady⟩ := ih hstep hjobs
    rw [List.flatMap_cons, Tree.edits_append, List.map_cons, List.mapM_cons]
    exact ⟨.bind hturns.attempt (.bind hrest (.pure _ _)), hsteady⟩

end Steady

/-! ## Projects -/

variable {root : String} {start : Place} {jobs : List Job} {w : World}

theorem turns_loadConfig (h : (loadConfig root).outcome w = .ok config) :
    Turns (loadConfig root) w.tree (.ok config) w.tree := by
  intro u hu
  have houtcome : (loadConfig root).outcome u = _ := (run_loadConfig rfl u).1
  rw [hu, ← (run_loadConfig rfl w).1, h] at houtcome
  exact ⟨houtcome, (run_loadConfig rfl u).2.trans hu⟩

theorem turns_discover {paths : List String} (hpaths : Discovery.specPaths t root = .ok paths)
    (htexts : ∀ path ∈ paths, ∃ text, t.read path = .ok text) :
    Turns (discover root) t (.ok (paths.map (specAt t))) t := by
  rintro w rfl
  exact run_discover hpaths htexts

/-- A project without a formatter whose configuration and whose specs can be read, with the sites of
its specs. -/
structure Surveyed (root : String) (config : ProjectConfig) (start : Place) (jobs : List Job)
    (t : Tree) : Prop where
  formatter : config.formatter = none
  configured : Turns (loadConfig root) t (.ok config) t
  stat : ∃ node, t.stat root = .ok (start, node)
  listed : Discovery.specPaths t root = .ok (jobs.map (·.1))
  texts : ∀ job ∈ jobs, ∃ text, t.read job.1 = .ok text
  sites : ∀ job ∈ jobs, job.2.Listed t root start job.1

/-- The edits of all specs. -/
def projectEdits (config : ProjectConfig) (t : Tree) (jobs : List Job) : List Tree.Edit :=
  jobs.flatMap fun job => (jobPlan config t job).edits

/-- What becomes of each spec. -/
def projectOutcomes (config : ProjectConfig) (t : Tree) (jobs : List Job) :
    List (String × Except Failure Generated) :=
  jobs.map fun job => (job.1, (jobPlan config t job).outcome)

/-- Every edit is beside a spec. -/
theorem exists_job {e : Tree.Edit} (he : e ∈ projectEdits config t jobs) :
    ∃ job ∈ jobs, job.2.generated <+: e.place ∧ ∀ s : Site, s.spec ≠ e.place := by
  obtain ⟨job, hjob, he⟩ := List.mem_flatMap.mp he
  obtain ⟨surface, code, hcode, he⟩ := Site.exists_plan he
  have hbackend := SpecFile.backend_of_code hcode
  exact ⟨job, hjob, Site.generated_isPrefix he hbackend, fun s => Site.spec_ne_of_edit he hbackend⟩

namespace Surveyed

section
variable (h : Surveyed root config start jobs t)
include h

theorem steady : Steady config jobs t t where
  stays _ hplace := hplace
  sited job hjob := by
    obtain ⟨top, front, found⟩ := (h.sites job hjob).found
    rw [directory_specAt, name_specAt]
    exact ⟨found.directory_eq.symm, found.name_eq.symm⟩
  stands job hjob := by
    obtain ⟨top, front, found⟩ := (h.sites job hjob).found
    exact found.stands
  plan _ _ := rfl

theorem turns :
    Turns (outcomes launch root) t (.ok (projectOutcomes config t jobs))
      (t.edits (projectEdits config t jobs)) := by
  have htexts : ∀ path ∈ jobs.map (·.1), ∃ text, t.read path = .ok text :=
    List.forall_mem_map.mpr h.texts
  have hspecs := turns_discover h.listed htexts
  rw [List.map_map] at hspecs
  exact .bind h.configured (.bind hspecs (h.steady.run launch h.formatter (List.Subset.refl _)).1)

theorem steady_edits : Steady config jobs t (t.edits (projectEdits config t jobs)) :=
  (h.steady.run (.rewriting id) h.formatter (List.Subset.refl _)).2

/-- The edits of all specs agree. -/
theorem compatible : Tree.Compatible (projectEdits config t jobs) := by
  intro e he e' he' hplace
  obtain ⟨job, hjob, he⟩ := List.mem_flatMap.mp he
  obtain ⟨job', hjob', he'⟩ := List.mem_flatMap.mp he'
  obtain ⟨surface, code, hcode, he⟩ := Site.exists_plan he
  obtain ⟨surface', code', hcode', he'⟩ := Site.exists_plan he'
  refine Site.node_eq_of_place he he' (SpecFile.backend_of_code hcode)
    (SpecFile.backend_of_code hcode') (fun hsite hname => ?_) hplace
  have hpath : job.1 = job'.1 := Decidable.byContradiction fun hne =>
    ((h.sites job hjob).ne (h.sites job' hjob') hne).elim (absurd hsite) (absurd hname)
  have hsites := h.sites job hjob
  rw [hpath] at hsites hcode
  cases hcode.symm.trans hcode'
  exact ⟨hsites.unique (h.sites job' hjob'), rfl⟩

theorem beside : ∀ e ∈ projectEdits config t jobs, Discovery.Beside t root start e := by
  intro e he
  obtain ⟨job, hjob, hplace, hspec⟩ := exists_job he
  exact ⟨⟨job.2, job.1, h.sites job hjob, hplace⟩, hspec⟩

/-- The second run. -/
theorem turns_again :
    Turns (outcomes launch root) (t.edits (projectEdits config t jobs))
      (.ok (projectOutcomes config t jobs)) (t.edits (projectEdits config t jobs)) := by
  obtain ⟨node, hstat⟩ := h.stat
  have hstays := h.steady_edits.stays
  have hread : ∀ job ∈ jobs, ∃ text, t.read job.1 = .ok text ∧
      (t.edits (projectEdits config t jobs)).read job.1 = .ok text := by
    intro job hjob
    obtain ⟨text, htext⟩ := h.texts job hjob
    exact ⟨text, htext, Discovery.read_edits h.beside hstays (h.sites job hjob) htext⟩
  have hconfig : Turns (loadConfig root) (t.edits (projectEdits config t jobs)) (.ok config)
      (t.edits (projectEdits config t jobs)) := by
    intro v hv
    let w : World := { tree := t }
    have hw : w.tree = t := rfl
    refine ⟨?_, (run_loadConfig rfl v).2.trans hv⟩
    rw [Discovery.loadConfig_edits h.beside hstays hstat hw hv, (h.configured w hw).1]
  have hpaths := Discovery.specPaths_edits h.beside hstays hstat
  rw [h.listed] at hpaths
  have hspecs := turns_discover hpaths (List.forall_mem_map.mpr fun job hjob =>
    (hread job hjob).imp fun _ htext => htext.2)
  have hsame : (jobs.map (·.1)).map (specAt (t.edits (projectEdits config t jobs))) =
      jobs.map fun job => specAt t job.1 := by
    rw [List.map_map]
    refine List.map_congr_left fun job hjob => ?_
    obtain ⟨text, htext, htext'⟩ := hread job hjob
    rw [Function.comp_apply, specAt, htext', specAt, htext]
  rw [hsame] at hspecs
  have hrun := (h.steady_edits.run launch h.formatter (List.Subset.refl _)).1
  rw [← projectEdits, Tree.edits_of_has (Tree.has_edits h.compatible)] at hrun
  exact .bind hconfig (.bind hspecs hrun)

end

end Surveyed

theorem exists_paths_of_discover {specs : List SpecFile}
    (h : (discover root).outcome w = .ok specs) :
    ∃ paths, Discovery.specPaths w.tree root = .ok paths := by
  have hget : (get : Run World).outcome w = .ok w := rfl
  unfold discover at h
  rw [outcome_bind_of_ok hget] at h
  cases hpaths : Discovery.specPaths w.tree root with
  | error e =>
    rw [hpaths] at h
    cases h
  | ok paths => exact ⟨paths, rfl⟩

theorem exists_jobs {P : String → Site → Prop} {paths : List String}
    (h : ∀ path ∈ paths, ∃ s, P path s) :
    ∃ jobs : List Job, jobs.map (·.1) = paths ∧ ∀ job ∈ jobs, P job.1 job.2 := by
  induction paths with
  | nil => exact ⟨[], rfl, List.forall_mem_nil _⟩
  | cons path paths ih =>
    obtain ⟨hpath, hpaths⟩ := List.forall_mem_cons.mp h
    obtain ⟨s, hs⟩ := hpath
    obtain ⟨jobs, hjobs, hsites⟩ := ih hpaths
    exact ⟨(path, s) :: jobs, by rw [List.map_cons, hjobs], List.forall_mem_cons.mpr ⟨hs, hsites⟩⟩

/-- A run that gives a report has read all of the project. -/
theorem exists_surveyed {r : Report} (hwf : w.tree.WellFormed)
    (hconfig : (loadConfig root).outcome w = .ok config) (hformatter : config.formatter = none)
    (hrun : (generate launch root).outcome w = .ok r) :
    ∃ start jobs, Surveyed root config start jobs w.tree := by
  obtain ⟨config', hconfig', hrun⟩ := exists_of_outcome_bind hrun
  obtain ⟨specs, hspecs, -⟩ := exists_of_outcome_bind hrun
  obtain ⟨paths, hpaths⟩ := exists_paths_of_discover hspecs
  have htexts := exists_text_of_discover hpaths hspecs
  rw [Readable.tree_loadConfig] at hpaths htexts
  cases hstat : w.tree.stat root with
  | error e =>
    rw [Discovery.specPaths, hstat] at hpaths
    cases hpaths
  | ok found =>
    obtain ⟨start, node⟩ := found
    obtain ⟨jobs, rfl, hsites⟩ := exists_jobs fun path hpath =>
      (htexts path hpath).elim fun _ hread => Discovery.exists_listed hwf hstat hpaths hpath hread
    exact ⟨start, jobs, hformatter, turns_loadConfig hconfig, ⟨node, hstat⟩, hpaths,
      fun job hjob => htexts job.1 (List.mem_map_of_mem hjob), hsites⟩

end Run

/-! ## Paths of artifacts -/

namespace Site
variable {s s' : Site} {t : Tree} {backend backend' ending ending' : String}

theorem segments_path (s : Site) (hbackend : backend ∈ Registry.builtin.names)
    (hending : ending ∈ endings) : Tree.segments (s.path backend ending) =
      Tree.segments s.directory ++ [generatedName] ++ [backend] ++ [s.name ++ ending] := by
  unfold path Artifacts.outputDirectory Artifacts.generatedDirectory
  rw [Path.segments_join (s.plain_artifact hending), Path.segments_join (plain_backend hbackend).1,
    Path.segments_join plain_generatedName]

theorem path_ne (h : t.Reaches s.directory s.place) (h' : t.Reaches s'.directory s'.place)
    (hne : s.place ≠ s'.place ∨ s.name ≠ s'.name) (hbackend : backend ∈ Registry.builtin.names)
    (hbackend' : backend' ∈ Registry.builtin.names) (hending : ending ∈ endings)
    (hending' : ending' ∈ endings) : s.path backend ending ≠ s'.path backend' ending' := by
  intro heq
  have hsegments := congrArg Tree.segments heq
  rw [segments_path s hbackend hending, segments_path s' hbackend' hending'] at hsegments
  obtain ⟨hfront, hname⟩ := List.append_inj' hsegments rfl
  obtain ⟨hfront, -⟩ := List.append_inj' hfront rfl
  obtain ⟨hdirectory, -⟩ := List.append_inj' hfront rfl
  unfold Tree.Reaches at h h'
  rw [hdirectory] at h
  have hplace := Except.ok.inj (h.symm.trans h')
  have hname := (append_ending_inj hending hending' (List.singleton_inj.mp hname)).1
  exact hne.elim (absurd hplace) (absurd hname)

/-- The path of an artifact leads to its place. -/
theorem place_of_locate {target : Tree.Target} (h : t.Reaches s.directory s.place)
    (hbackend : backend ∈ Registry.builtin.names) (hending : ending ∈ endings)
    (htarget : t.locate (s.path backend ending) = .ok target) :
    target.place = s.artifact backend ending := by
  obtain ⟨inner, hinner, -, rfl⟩ := Tree.exists_reaches (s.plain_artifact hending) htarget
  obtain ⟨outer, houter, rfl⟩ := hinner.of_join (plain_backend hbackend).1
  obtain ⟨place, hplace, rfl⟩ := houter.of_join plain_generatedName
  cases hplace.unique h
  rfl

end Site

namespace Run
variable {root : String} {w : World} {config : ProjectConfig}

/-- The paths that may be written for the spec at a path: those of headers and sources, and where
they are staged. -/
def writtenPaths (path : String) : List String :=
  Registry.builtin.names.flatMap fun backend =>
    let a := Artifacts.of ((Path.parent? path).getD "") (specName path) backend
    [a.header, a.source, Artifacts.staging a.header, Artifacts.staging a.source]

theorem exists_of_mem_writtenPaths {s : Site} {path file : String}
    (hdirectory : s.directory = (Path.parent? path).getD "") (hname : s.name = specName path)
    (h : file ∈ writtenPaths path) : ∃ backend ∈ Registry.builtin.names, ∃ ending ∈ Site.endings,
      file = s.path backend ending := by
  obtain ⟨backend, hbackend, hfile⟩ := List.mem_flatMap.mp h
  dsimp only at hfile
  rw [← hdirectory, ← hname, Site.header_of, Site.source_of, Site.staging_path s _ (by decide),
    Site.staging_path s _ (by decide)] at hfile
  obtain ⟨ending, hending, rfl⟩ := List.mem_map (f := s.path backend) (l := Site.endings).mp hfile
  exact ⟨backend, hbackend, ending, hending, rfl⟩

/-- Different specs have different artifacts. -/
theorem Surveyed.apart {start : Place} {jobs : List Job} {t : Tree} {path path' file file' : String}
    (h : Surveyed root config start jobs t) (hpath : path ∈ jobs.map (·.1))
    (hpath' : path' ∈ jobs.map (·.1)) (hne : path ≠ path') (hfile : file ∈ writtenPaths path)
    (hfile' : file' ∈ writtenPaths path') : file ≠ file' ∧
      ∀ target target', (t.edits (projectEdits config t jobs)).locate file = .ok target →
        (t.edits (projectEdits config t jobs)).locate file' = .ok target' →
        target.place ≠ target'.place := by
  obtain ⟨job, hjob, rfl⟩ := List.mem_map.mp hpath
  obtain ⟨job', hjob', rfl⟩ := List.mem_map.mp hpath'
  have hsites := (h.sites job hjob).ne (h.sites job' hjob') hne
  have hreaches := (h.steady_edits.stands job hjob).reaches
  have hreaches' := (h.steady_edits.stands job' hjob').reaches
  obtain ⟨hdirectory, hname⟩ := h.steady.sited job hjob
  obtain ⟨hdirectory', hname'⟩ := h.steady.sited job' hjob'
  rw [directory_specAt] at hdirectory hdirectory'
  rw [name_specAt] at hname hname'
  obtain ⟨backend, hbackend, ending, hending, rfl⟩ :=
    exists_of_mem_writtenPaths hdirectory.symm hname.symm hfile
  obtain ⟨backend', hbackend', ending', hending', rfl⟩ :=
    exists_of_mem_writtenPaths hdirectory'.symm hname'.symm hfile'
  refine ⟨Site.path_ne hreaches hreaches' hsites hbackend hbackend' hending hending',
    fun target target' htarget htarget' heq => ?_⟩
  rw [Site.place_of_locate hreaches hbackend hending htarget,
    Site.place_of_locate hreaches' hbackend' hending' htarget'] at heq
  have hmem : job.2.artifact backend ending ∈ job.2.artifacts backend :=
    Site.artifact_mem_artifacts hending
  have hmem' : job'.2.artifact backend' ending' ∈ job'.2.artifacts backend' :=
    Site.artifact_mem_artifacts hending'
  rw [heq] at hmem
  obtain ⟨hplace, hname, -⟩ := Site.artifacts_inj hmem hmem'
  exact hsites.elim (absurd hplace) (absurd hname)

/-- **Generation is idempotent and stays in its directories.** If a run over a project without a
formatter gives a report, then every run from the tree that it leaves gives the same report and
leaves that tree. The first run changes nothing outside the directories for generated files beside
the specs. The headers, sources and staged files of different specs have different paths, which lead
to different places. -/
theorem generate_again {r : Report} (hwf : w.tree.WellFormed)
    (hconfig : (loadConfig root).outcome w = .ok config) (hformatter : config.formatter = none)
    (hrun : (generate launch root).outcome w = .ok r) :
    (∀ v : World, v.tree = ((generate launch root).after w).tree →
      (generate launch root).outcome v = .ok r ∧ ((generate launch root).after v).tree = v.tree) ∧
    ∃ paths, Discovery.specPaths w.tree root = .ok paths ∧
      (∀ place, (∀ path ∈ paths, ∀ directory,
          w.tree.Reaches ((Path.parent? path).getD "") directory →
          ¬ directory ++ [generatedName] <+: place) →
        ((generate launch root).after w).tree.get? place = w.tree.get? place) ∧
      ∀ path ∈ paths, ∀ path' ∈ paths, path ≠ path' →
        ∀ file ∈ writtenPaths path, ∀ file' ∈ writtenPaths path', file ≠ file' ∧
          ∀ target target', ((generate launch root).after w).tree.locate file = .ok target →
            ((generate launch root).after w).tree.locate file' = .ok target' →
            target.place ≠ target'.place := by
  obtain ⟨start, jobs, hproject⟩ := exists_surveyed hwf hconfig hformatter hrun
  obtain ⟨houtcome, htree⟩ := hproject.turns w rfl
  rw [(outcome_generate launch root w).1, houtcome] at hrun
  rw [(outcome_generate launch root w).2, htree]
  refine ⟨fun v hv => ?_, jobs.map (·.1), hproject.listed, fun place hplace => ?_, ?_⟩
  · obtain ⟨houtcome', htree'⟩ := hproject.turns_again v hv
    rw [(outcome_generate launch root v).1, (outcome_generate launch root v).2, houtcome', htree',
      hv]
    exact ⟨hrun, rfl⟩
  · refine Tree.get?_edits_of_ne fun e he => ?_
    rintro rfl
    obtain ⟨job, hjob, hbelow, -⟩ := exists_job he
    obtain ⟨top, front, found⟩ := (hproject.sites job hjob).found
    exact hplace job.1 (List.mem_map_of_mem hjob) job.2.place
      (found.directory_eq ▸ found.stands.reaches) hbelow
  · exact fun path hpath path' hpath' hne file hfile file' hfile' =>
      hproject.apart hpath hpath' hne hfile hfile'

/-- A staged header that was left behind, and a directory where the source of another spec goes. -/
theorem generate_again_stale :
    let launch := Launcher.rewriting id
    let w : World := { tree := ⟨[(["p"], .directory),
      (["p", "a.bspec"], .file (Tree.bytesOf "interface NIF\nspec f() :: :ok")),
      (["p", "b.bspec"], .file (Tree.bytesOf "interface NIF\nspec g() :: :ok")),
      (["p", "_generated"], .directory), (["p", "_generated", "nif"], .directory),
      (["p", "_generated", "nif", "a.h.tmp"], .file []),
      (["p", "_generated", "nif", "b.c"], .directory)]⟩ }
    let v := (generate launch "p").after w
    ∃ r, (generate launch "p").outcome w = .ok r ∧ (generate launch "p").outcome v = .ok r ∧
      ((generate launch "p").after v).tree = v.tree ∧
      v.tree.get? ["p", "a.bspec"] = w.tree.get? ["p", "a.bspec"] ∧
      ∀ target target', v.tree.locate "p/_generated/nif/a.h" = .ok target →
        v.tree.locate "p/_generated/nif/b.h.tmp" = .ok target' → target.place ≠ target'.place := by
  intro launch w v
  have hwf : w.tree.WellFormed := Tree.wellFormed_of_nodes (by decide +kernel)
  have hconfig : (loadConfig "p").outcome w = .ok {} := ok_of_toOption (by decide +kernel)
  have hstat : w.tree.stat "p" = .ok (["p"], .directory) := ok_of_toOption (by decide +kernel)
  have hpaths : Discovery.specPaths w.tree "p" = .ok ["p/a.bspec", "p/b.bspec"] :=
    Discovery.specPaths_of_sorted hstat (by decide +kernel) (by decide +kernel)
  obtain ⟨r, hr⟩ := Readable.exists_report hconfig hpaths (exists_texts (by decide +kernel))
  obtain ⟨hagain, paths, hpaths', hframe, hapart⟩ := generate_again hwf hconfig rfl hr
  obtain ⟨houtcome, htree⟩ := hagain v rfl
  cases hpaths.symm.trans hpaths'
  refine ⟨r, hr, houtcome, htree, hframe _ fun path _ directory _ hbelow => ?_,
    (hapart "p/a.bspec" (by decide) "p/b.bspec" (by decide) (by decide) "p/_generated/nif/a.h"
      (by decide +kernel) "p/_generated/nif/b.h.tmp" (by decide +kernel)).2⟩
  exact absurd (hbelow.subset (List.mem_append_right _ List.mem_cons_self)) (by decide)

end Run

end NativeInterface
