import NativeInterface.Proofs.Sites

/-!
# The run of a spec is local

Compiling a spec and writing its artifacts has one outcome on all trees that agree for its site, and
leaves trees that agree; besides it changes files and directories of the site only
(`alike_generateSpec`). A formatter has to be confined to the files that it is given for this.
-/

namespace NativeInterface
open NativeInterface.Path (Plain join)

/-- The contents of a file. -/
def Node.bytes? : Node → Option (List UInt8)
  | .directory => none
  | .file bytes => some bytes

/-- A node is known from its contents and from being a directory. -/
theorem Node.ext_of_bytes {n n' : Option Node} (hbytes : n.bind bytes? = n'.bind bytes?)
    (hdirectory : n = some .directory ↔ n' = some .directory) : n = n' := by
  rcases n with _ | _ | bytes
  · rcases n' with _ | _ | bytes
    · rfl
    · cases hdirectory.mpr rfl
    · cases hbytes
  · exact (hdirectory.mp rfl).symm
  · rcases n' with _ | _ | bytes'
    · cases hbytes
    · cases hdirectory.mpr rfl
    · cases hbytes
      rfl

namespace Tree

/-- The bytes of the file that a path leads to. -/
def contents? (t : Tree) (path : String) : Option (List UInt8) := (t.readBytes path).toOption

/-- The places that paths lead to. -/
def leads (t : Tree) (paths : List String) : List Place :=
  paths.filterMap fun path => (t.locate path).toOption.map (·.place)

section
variable {t : Tree} {directory name : String} {place : Place}

theorem contents?_join (h : t.Reaches directory place) (hname : Plain name) :
    t.contents? (join directory name) = match checkEntry directory name with
      | .ok _ => (t.get? (place ++ [name])).bind Node.bytes?
      | .error _ => none := by
  unfold contents?
  rw [readBytes_join h hname]
  cases checkEntry directory name with
  | error e => rfl
  | ok _ => rcases t.get? (place ++ [name]) with _ | _ | bytes <;> rfl

theorem contents?_of_error {e : FileError} (hname : Plain name)
    (h : t.enter [] (segments directory) = .error e) :
    t.contents? (join directory name) = none := by
  unfold contents? readBytes stat
  rw [locate_join_of_error hname h]
  cases checkPath (join directory name) <;> rfl

end

/-- Where a file is moved to stands a file, and all others but the one that is moved stay. -/
theorem hasFile_moved {t : Tree} {place place' q : Place} {bytes : List UInt8} (hplace : place ≠ [])
    (hplace' : place' ≠ []) (hq : q ≠ place) (h : q = place' ∨ t.hasFile q) :
    ((t.put place' (.file bytes)).erase place).hasFile q := by
  rw [hasFile, get?_erase hplace, if_neg hq, get?_put hplace']
  by_cases hsame : q = place'
  · rw [if_pos hsame]
  · rw [if_neg hsame]
    exact h.resolve_left hsame

end Tree

/-! ## Formatters -/

/-- Both artifacts are files. -/
def Artifacts.Written (a : Artifacts) (t : Tree) : Prop :=
  ∀ path ∈ [a.header, a.source], (t.contents? path).isSome

/-- Given two files, a formatter changes nothing but their contents, in a way that depends on
nothing but these contents. -/
structure Confined (launch : Launcher) (formatter : String) (a : Artifacts) : Prop where
  keeps : ∀ t : Tree, a.Written t →
    t.Keeps (t.leads [a.header, a.source]) [] (Run.formatTree launch formatter a t)
  contents : ∀ t u : Tree, a.Written t →
    (∀ path ∈ [a.header, a.source], t.contents? path = u.contents? path) →
    ∀ path ∈ [a.header, a.source], (Run.formatTree launch formatter a t).contents? path =
      (Run.formatTree launch formatter a u).contents? path

/-- If there is a formatter, it is confined to the artifacts of a spec. -/
def ProjectConfig.ConfinedTo (config : ProjectConfig) (launch : Launcher)
    (directory name : String) : Prop :=
  ∀ formatter ∈ config.formatter, ∀ backend ∈ Registry.builtin.names,
    Confined launch formatter (.of directory name backend)

/-! ### Programs that rewrite files -/

namespace Tree
variable {t : Tree} {directory name : String} {place : Place} {bytes : List UInt8}

/-- Rewrite a file, if there is one. -/
def rewrite (edit : List UInt8 → List UInt8) (t : Tree) (path : String) : Tree :=
  match t.contents? path with
  | none => t
  | some bytes => (t.write path (edit bytes)).toOption.getD t

theorem rewrite_join {edit : List UInt8 → List UInt8} (h : t.Reaches directory place)
    (hname : Plain name) (hentry : checkEntry directory name = .ok ())
    (hnode : t.get? (place ++ [name]) = some (.file bytes)) :
    t.rewrite edit (join directory name) = t.put (place ++ [name]) (.file (edit bytes)) := by
  have hcontents : t.contents? (join directory name) = some bytes := by
    rw [contents?_join h hname, hentry, hnode]
    rfl
  have hwrite : t.write (join directory name) (edit bytes) =
      .ok (t.put (place ++ [name]) (.file (edit bytes))) := by
    rw [write_join h hname, hentry, hnode]
    rfl
  rw [rewrite, hcontents]
  dsimp only
  rw [hwrite]
  rfl

/-- A path whose contents are there leads to a file. -/
theorem exists_of_contents? (hname : Plain name)
    (h : t.contents? (join directory name) = some bytes) :
    ∃ place, t.Reaches directory place ∧ checkEntry directory name = .ok () ∧
      t.get? (place ++ [name]) = some (.file bytes) := by
  cases hplace : t.enter [] (segments directory) with
  | error e =>
    rw [contents?_of_error hname hplace] at h
    cases h
  | ok place =>
    rw [contents?_join hplace hname] at h
    cases hentry : checkEntry directory name with
    | error e =>
      rw [hentry] at h
      cases h
    | ok _ =>
      rw [hentry] at h
      obtain ⟨node, hnode, hbytes⟩ := Option.bind_eq_some_iff.mp h
      cases node with
      | directory => cases hbytes
      | file _ =>
        cases hbytes
        exact ⟨place, hplace, rfl, hnode⟩

end Tree

/-- Every program rewrites the files behind the option `-i`, one after another. -/
def Launcher.rewriting (edit : List UInt8 → List UInt8) : Launcher := fun _ args t =>
  .ok ⟨0, (args.dropWhile (· ≠ "-i")).tail.foldl (Tree.rewrite edit) t, "", ""⟩

namespace Confined
variable {edit : List UInt8 → List UInt8} {formatter program directory name backend : String}
  {args : List String}

theorem formatTree_rewriting (hwords : Text.words formatter = program :: args)
    (hargs : "-i" ∉ args) (a : Artifacts) (t : Tree) :
    Run.formatTree (.rewriting edit) formatter a t =
      (t.rewrite edit a.header).rewrite edit a.source := by
  have hbefore : ∀ arg ∈ args, decide (arg ≠ "-i") := by
    intro arg harg
    rw [decide_eq_true_eq]
    rintro rfl
    exact hargs harg
  rw [Run.formatTree, hwords]
  dsimp only [Launcher.rewriting]
  rw [List.dropWhile_append_of_pos hbefore]
  rfl

/-- A header and a source that are files stand in one directory, and both are rewritten. -/
theorem keeps_rewriting (hname : '/' ∉ name.toList)
    (hwords : Text.words formatter = program :: args) (hargs : "-i" ∉ args) {t : Tree}
    {header source : List UInt8}
    (hheader : t.contents? (Artifacts.of directory name backend).header = some header)
    (hsource : t.contents? (Artifacts.of directory name backend).source = some source) :
    let t' := Run.formatTree (.rewriting edit) formatter (.of directory name backend) t
    t.Keeps (t.leads [(Artifacts.of directory name backend).header,
        (Artifacts.of directory name backend).source]) [] t' ∧
      t'.contents? (Artifacts.of directory name backend).header = some (edit header) ∧
      t'.contents? (Artifacts.of directory name backend).source = some (edit source) := by
  have hplain : Plain (name ++ ".h") := .append (c := 'h') hname (by decide) rfl (by decide)
  have hplain' : Plain (name ++ ".c") := .append (c := 'c') hname (by decide) rfl (by decide)
  obtain ⟨place, hreaches, hentry, hnode⟩ := Tree.exists_of_contents? hplain hheader
  obtain ⟨place', hreaches', hentry', hnode'⟩ := Tree.exists_of_contents? hplain' hsource
  obtain rfl := hreaches.unique hreaches'
  have hne : place ++ [name ++ ".c"] ≠ place ++ [name ++ ".h"] := by
    intro heq
    have hends := (String.append_right_inj name).mp (List.singleton_inj.mp
      (List.append_cancel_left heq))
    exact absurd hends (by decide)
  have hfile {t : Tree} {q : Place} {bytes : List UInt8} (h : t.get? q = some (.file bytes)) :
      t.get? q ≠ some .directory := by
    rw [h]
    exact fun h => by cases h
  have hput : t.Keeps [place ++ [name ++ ".h"]] []
      (t.put (place ++ [name ++ ".h"]) (.file (edit header))) :=
    .put_file (by simp) (hfile hnode) _
  have hkept : (t.put (place ++ [name ++ ".h"]) (.file (edit header))).get?
      (place ++ [name ++ ".c"]) = some (.file source) := by
    rw [Tree.get?_put (by simp), if_neg hne, hnode']
  have hput' := Tree.Keeps.put_file (by simp) (hfile hkept) (edit source)
  have hplaces : t.leads [(Artifacts.of directory name backend).header,
      (Artifacts.of directory name backend).source] =
      [place ++ [name ++ ".h"], place ++ [name ++ ".c"]] := by
    simp only [Artifacts.of, Tree.leads, List.filterMap_cons, List.filterMap_nil,
      Tree.locate_join hreaches hplain, Tree.locate_join hreaches hplain', hentry, hentry']
    rfl
  have hreaches := hreaches.keeps hput
  intro t'
  have ht' : t' = (t.put (place ++ [name ++ ".h"]) (.file (edit header))).put
      (place ++ [name ++ ".c"]) (.file (edit source)) := by
    refine (formatTree_rewriting hwords hargs _ t).trans ?_
    dsimp only [Artifacts.of]
    rw [Tree.rewrite_join hreaches' hplain hentry hnode,
      Tree.rewrite_join hreaches hplain' hentry' hkept]
  rw [ht', hplaces]
  refine ⟨(hput.mono (by simp) fun _ h => h).trans (hput'.mono (by simp) fun _ h => h), ?_, ?_⟩
  · dsimp only [Artifacts.of]
    rw [Tree.contents?_join (hreaches.keeps hput') hplain, hentry, Tree.get?_put (by simp),
      if_neg hne.symm, Tree.get?_put (by simp), if_pos rfl]
    rfl
  · dsimp only [Artifacts.of]
    rw [Tree.contents?_join (hreaches.keeps hput') hplain', hentry', Tree.get?_put (by simp),
      if_pos rfl]
    rfl

/-- Such a program is confined to its files if these are all that it is given. -/
theorem rewriting (hname : '/' ∉ name.toList) (hwords : Text.words formatter = program :: args)
    (hargs : "-i" ∉ args) :
    Confined (.rewriting edit) formatter (.of directory name backend) := by
  have hfiles {t : Tree} (h : (Artifacts.of directory name backend).Written t) :
      ∃ header source, t.contents? (Artifacts.of directory name backend).header = some header ∧
        t.contents? (Artifacts.of directory name backend).source = some source := by
    obtain ⟨header, hheader⟩ := Option.isSome_iff_exists.mp (h _ List.mem_cons_self)
    obtain ⟨source, hsource⟩ := Option.isSome_iff_exists.mp
      (h _ (List.mem_cons_of_mem _ List.mem_cons_self))
    exact ⟨header, source, hheader, hsource⟩
  constructor
  · intro t ht
    obtain ⟨header, source, hheader, hsource⟩ := hfiles ht
    exact (keeps_rewriting hname hwords hargs hheader hsource).1
  · intro t u ht hsame
    obtain ⟨header, source, hheader, hsource⟩ := hfiles ht
    rw [List.forall_mem_cons, List.forall_mem_singleton] at hsame ⊢
    obtain ⟨-, ht, ht'⟩ := keeps_rewriting hname hwords hargs hheader hsource
    obtain ⟨-, hu, hu'⟩ := keeps_rewriting hname hwords hargs (hsame.1 ▸ hheader)
      (hsame.2 ▸ hsource)
    exact ⟨ht.trans hu.symm, ht'.trans hu'.symm⟩

end Confined

namespace Site
open Run (Alike)
variable {s : Site} {t₀ u₀ t u : Tree} {backend : String}

/-! ## Directories -/

theorem plain_generatedName : Plain generatedName := by decide

theorem plain_backend (h : backend ∈ Registry.builtin.names) :
    Plain backend ∧ Tree.checkName backend = .ok () := by
  rw [Registry.names_builtin] at h
  simp only [List.mem_cons, List.not_mem_nil, or_false] at h
  rcases h with rfl | rfl
  · exact ⟨by decide, rfl⟩
  · exact ⟨by decide, rfl⟩

theorem alike_makeDirectories (h : backend ∈ Registry.builtin.names) :
    Alike (s.Shares t₀ u₀) (s.SharesOpened backend t₀ u₀) (s.Shares t₀ u₀)
      (Run.makeDirectories (Artifacts.outputDirectory s.directory backend)) := by
  obtain ⟨hplain, hcheck⟩ := plain_backend h
  have hgenerated : s.generated ∈ s.directories := List.mem_cons_self
  have houtput : s.output backend ∈ s.directories :=
    List.mem_cons_of_mem _ (List.mem_map_of_mem h)
  refine .makeDirectories fun t u hshares => ?_
  unfold Artifacts.outputDirectory Artifacts.generatedDirectory
  rw [Tree.makeDirectories_join hshares.left.reaches plain_generatedName hplain rfl hcheck,
    Tree.makeDirectories_join hshares.right.reaches plain_generatedName hplain rfl hcheck,
    ← generated, ← output, ← hshares.blocked _ hgenerated, ← hshares.blocked _ houtput]
  cases Tree.checkPath (join (join s.directory generatedName) backend) with
  | error e => exact ⟨rfl, hshares, fun h => absurd h (Option.some_ne_none _)⟩
  | ok _ =>
    dsimp only
    split
    · exact ⟨rfl, hshares, fun h => absurd h (Option.some_ne_none _)⟩
    · rename_i hfile
      split
      · exact ⟨rfl, hshares.ensure hgenerated, fun h => absurd h (Option.some_ne_none _)⟩
      · rename_i hfile'
        have hensured := (hshares.ensure hgenerated).ensure houtput
        refine ⟨rfl, hensured, fun _ => ⟨hensured, opened_ensure ?_ ?_, opened_ensure ?_ ?_⟩⟩
        · simpa using hfile
        · simpa using hfile'
        · simpa [← hshares.blocked _ hgenerated] using hfile
        · simpa [← hshares.blocked _ houtput] using hfile'

theorem Stands.reaches_generated (h : s.Stands t) (hopen : s.Opened backend t) :
    t.Reaches (Artifacts.generatedDirectory s.directory) s.generated :=
  h.reaches.joined plain_generatedName rfl hopen.generated

theorem Stands.reaches_output (h : s.Stands t) (hbackend : backend ∈ Registry.builtin.names)
    (hopen : s.Opened backend t) :
    t.Reaches (Artifacts.outputDirectory s.directory backend) (s.output backend) :=
  (h.reaches_generated hopen).joined (plain_backend hbackend).1 (plain_backend hbackend).2
    hopen.output

/-! ## Files -/

/-- The path of an artifact. -/
def path (s : Site) (backend ending : String) : String :=
  join (Artifacts.outputDirectory s.directory backend) (s.name ++ ending)

variable {ending ending' : String}

/-- An artifact is a file, and its path is one that can be followed. -/
structure Written (s : Site) (backend ending : String) (t : Tree) : Prop where
  entry : Tree.checkEntry (Artifacts.outputDirectory s.directory backend) (s.name ++ ending) =
    .ok ()
  file : t.hasFile (s.artifact backend ending)

/-- Trees with the output directories of a backend, and with artifacts of these endings. -/
structure SharesWritten (s : Site) (backend : String) (written : List String) (t₀ u₀ t u : Tree) :
    Prop extends s.SharesOpened backend t₀ u₀ t u where
  written : ∀ ending ∈ written, s.Written backend ending t

/-- A run that goes the same way wherever the output directories are there. -/
abbrev Local (s : Site) (backend : String) (t₀ u₀ : Tree) {α : Type} (x : Run α) : Prop :=
  Alike (s.SharesOpened backend t₀ u₀) (s.SharesOpened backend t₀ u₀)
    (s.SharesOpened backend t₀ u₀) x

section
variable (hbackend : backend ∈ Registry.builtin.names)
include hbackend

theorem local_writeIgnore :
    s.Local backend t₀ u₀
      (Run.writeFile (Artifacts.ignorePath s.directory) Artifacts.ignoreText) := by
  have hplain : Plain ".gitignore" := by decide
  have hne : s.ignore ≠ [] := by simp [ignore]
  refine .change fun t u h => ?_
  unfold Artifacts.ignorePath
  rw [Tree.write_join (h.left.reaches_generated h.openLeft) hplain,
    Tree.write_join (h.right.reaches_generated h.openRight) hplain, ← ignore]
  cases Tree.checkEntry (Artifacts.generatedDirectory s.directory) ".gitignore" with
  | error e => exact .inl ⟨e, rfl, rfl⟩
  | ok _ =>
    by_cases hnode : t.get? s.ignore = some .directory
    · refine .inl ⟨.isADirectory, if_pos hnode, if_pos (h.ignore.mp hnode)⟩
    · have hnode' := mt h.ignore.mpr hnode
      refine .inr ⟨_, _, if_neg hnode, if_neg hnode', h.change hbackend ?_ (.put_file hne hnode _)
        (.put_file hne hnode' _) ?_⟩
      · exact fun q hq => List.mem_singleton.mp hq ▸ List.mem_cons_self
      · intro q hq hown
        exact absurd (List.mem_singleton.mp hq) (own_ne_ignore hown)

theorem local_write (hending : ending ∈ endings) (text : String) :
    s.Local backend t₀ u₀ (Run.writeFile (s.path backend ending) text) := by
  refine .change fun t u h => ?_
  have hown := h.own _ (artifact_mem_own hbackend hending)
  unfold path
  rw [Tree.write_join (h.left.reaches_output hbackend h.openLeft) (s.plain_artifact hending),
    Tree.write_join (h.right.reaches_output hbackend h.openRight) (s.plain_artifact hending),
    ← artifact, ← hown]
  cases Tree.checkEntry (Artifacts.outputDirectory s.directory backend) (s.name ++ ending) with
  | error e => exact .inl ⟨e, rfl, rfl⟩
  | ok _ =>
    by_cases hnode : t.get? (s.artifact backend ending) = some .directory
    · exact .inl ⟨.isADirectory, if_pos hnode, if_pos hnode⟩
    · exact .inr ⟨_, _, if_neg hnode, if_neg hnode, h.put hbackend hending hnode _⟩

theorem local_discard (hending : ending ∈ endings) :
    s.Local backend t₀ u₀ (Run.discard (s.path backend ending)) := by
  refine .discard fun t u h => ?_
  have hown := h.own _ (artifact_mem_own hbackend hending)
  unfold path
  rw [Tree.remove_join (h.left.reaches_output hbackend h.openLeft) (s.plain_artifact hending),
    Tree.remove_join (h.right.reaches_output hbackend h.openRight) (s.plain_artifact hending),
    ← artifact, ← hown]
  cases Tree.checkEntry (Artifacts.outputDirectory s.directory backend) (s.name ++ ending) with
  | error e => exact .inl ⟨e, rfl, rfl⟩
  | ok _ =>
    rcases hnode : t.get? (s.artifact backend ending) with _ | _ | bytes
    · exact .inl ⟨.notFound, rfl, rfl⟩
    · exact .inl ⟨.isADirectory, rfl, rfl⟩
    · exact .inr ⟨_, _, rfl, rfl, h.erase hbackend hending (by simp [hnode])⟩

/-- What is moved to the place of an artifact is there when all went well. -/
theorem alike_rename {written : List String} (hending : ending ∈ endings)
    (hending' : ending' ∈ endings) (hne : ending ≠ ending') (hwritten : ending ∉ written)
    (path : String) :
    Alike (s.SharesWritten backend written t₀ u₀)
      (s.SharesWritten backend (ending' :: written) t₀ u₀) (s.SharesOpened backend t₀ u₀)
      (Run.change path (·.rename (s.path backend ending) (s.path backend ending'))) := by
  have hname {ending' : String} (hne : ending ≠ ending') : s.name ++ ending ≠ s.name ++ ending' :=
    fun heq => hne ((String.append_right_inj s.name).mp heq)
  have hplace (other : String) (hne : ending ≠ other) :
      s.artifact backend other ≠ s.artifact backend ending :=
    fun heq => hname hne (List.singleton_inj.mp (List.append_cancel_left heq)).symm
  refine Alike.mono (.change fun t u h => ?_) (fun _ _ h => h) (fun _ _ h => h)
    fun _ _ h => h.toSharesOpened
  have hown := h.own _ (artifact_mem_own hbackend hending)
  have hown' := h.own _ (artifact_mem_own hbackend hending')
  unfold Site.path
  rw [Tree.rename_join (h.left.reaches_output hbackend h.openLeft) (s.plain_artifact hending)
      (s.plain_artifact hending') (hname hne),
    Tree.rename_join (h.right.reaches_output hbackend h.openRight) (s.plain_artifact hending)
      (s.plain_artifact hending') (hname hne), ← artifact, ← artifact, ← hown, ← hown']
  cases Tree.checkEntry (Artifacts.outputDirectory s.directory backend) (s.name ++ ending) with
  | error e => exact .inl ⟨e, rfl, rfl⟩
  | ok _ =>
    rcases hnode : t.get? (s.artifact backend ending) with _ | _ | bytes
    · exact .inl ⟨.notFound, rfl, rfl⟩
    · exact .inl ⟨.isADirectory, rfl, rfl⟩
    · dsimp only [bind, Except.bind]
      cases hentry : Tree.checkEntry (Artifacts.outputDirectory s.directory backend)
          (s.name ++ ending') with
      | error e => exact .inl ⟨e, rfl, rfl⟩
      | ok _ =>
        by_cases hnode' : t.get? (s.artifact backend ending') = some .directory
        · exact .inl ⟨.isADirectory, if_pos hnode', if_pos hnode'⟩
        · have hput := h.put hbackend hending' hnode' bytes
          have hmoved := hput.erase hbackend hending (by
            rw [Tree.get?_put (s.artifact_ne_nil _ _), if_neg (hplace _ hne).symm, hnode]
            exact fun h => by cases h)
          refine .inr ⟨_, _, if_neg hnode', if_neg hnode', hmoved,
            List.forall_mem_cons.mpr ⟨⟨hentry, ?_⟩, fun other hother => ?_⟩⟩
          · exact Tree.hasFile_moved (s.artifact_ne_nil _ _) (s.artifact_ne_nil _ _)
              (hplace _ hne) (.inl rfl)
          · obtain ⟨hentry, hfile⟩ := h.written other hother
            refine ⟨hentry, Tree.hasFile_moved (s.artifact_ne_nil _ _) (s.artifact_ne_nil _ _)
              (hplace other ?_) (.inr hfile)⟩
            rintro rfl
            exact hwritten hother

end

/-! ## Contents -/

theorem enter_output_of_not_opened (h : s.Stands t) (hbackend : backend ∈ Registry.builtin.names)
    (hopen : ¬ s.Opened backend t) :
    ∃ e, t.enter [] (Tree.segments (Artifacts.outputDirectory s.directory backend)) = .error e := by
  obtain ⟨hplain, hcheck⟩ := plain_backend hbackend
  have hgenerated := h.reaches.enter_join plain_generatedName rfl
  rw [← generated] at hgenerated
  rcases hnode : t.get? s.generated with _ | _ | bytes
  · rw [hnode] at hgenerated
    exact ⟨_, Tree.Reaches.enter_join_of_error hplain hgenerated⟩
  · rw [hnode] at hgenerated
    have houtput := Tree.Reaches.enter_join hgenerated hplain hcheck
    rw [← output] at houtput
    rcases hnode' : t.get? (s.output backend) with _ | _ | bytes
    · rw [hnode'] at houtput
      exact ⟨_, houtput⟩
    · exact absurd ⟨hnode, hnode'⟩ hopen
    · rw [hnode'] at houtput
      exact ⟨_, houtput⟩
  · rw [hnode] at hgenerated
    exact ⟨_, Tree.Reaches.enter_join_of_error hplain hgenerated⟩

/-- The contents of an artifact are a matter of the node at its place. -/
theorem Stands.contents?_path (h : s.Stands t) (hbackend : backend ∈ Registry.builtin.names)
    (hending : ending ∈ endings) : t.contents? (s.path backend ending) =
      match Tree.checkEntry (Artifacts.outputDirectory s.directory backend) (s.name ++ ending) with
      | .ok _ => (t.get? (s.artifact backend ending)).bind Node.bytes?
      | .error _ => none := by
  by_cases hopen : s.Opened backend t
  · exact Tree.contents?_join (h.reaches_output hbackend hopen) (s.plain_artifact hending)
  · have hnode : t.get? (s.artifact backend ending) = none :=
      Decidable.byContradiction fun hnode =>
        hopen (h.housed backend hbackend _ (artifact_mem_artifacts hending) hnode)
    obtain ⟨e, he⟩ := enter_output_of_not_opened h hbackend hopen
    rw [path, Tree.contents?_of_error (s.plain_artifact hending) he, hnode]
    split <;> rfl

theorem Agree.contents? (h : s.Agree t u) (hbackend : backend ∈ Registry.builtin.names)
    (hending : ending ∈ endings) :
    t.contents? (s.path backend ending) = u.contents? (s.path backend ending) := by
  rw [h.left.contents?_path hbackend hending, h.right.contents?_path hbackend hending,
    h.own _ (artifact_mem_own hbackend hending)]

/-! ## Artifacts -/

theorem header_of (s : Site) (backend : String) :
    (Artifacts.of s.directory s.name backend).header = s.path backend ".h" := rfl

theorem source_of (s : Site) (backend : String) :
    (Artifacts.of s.directory s.name backend).source = s.path backend ".c" := rfl

theorem staging_path (s : Site) (backend : String) (hending : ending ∈ endings) :
    Artifacts.staging (s.path backend ending) = s.path backend (ending ++ ".tmp") := by
  unfold Artifacts.staging path
  rw [← Path.join_append (s.plain_artifact hending), String.append_assoc]

/-- If a pair is written, both artifacts are files. -/
theorem alike_writePair {code : GeneratedCode} (hbackend : backend ∈ Registry.builtin.names) :
    Alike (s.SharesOpened backend t₀ u₀) (s.SharesWritten backend [".c", ".h"] t₀ u₀)
      (s.SharesOpened backend t₀ u₀)
      (Run.writePair (Artifacts.of s.directory s.name backend) code) := by
  have hheader : ".h" ∈ endings := by decide
  have hsource : ".c" ∈ endings := by decide
  have hheader' : ".h.tmp" ∈ endings := by decide
  have hsource' : ".c.tmp" ∈ endings := by decide
  unfold Run.writePair
  rw [header_of, source_of, staging_path s backend hheader, staging_path s backend hsource]
  have hdiscard : s.Local backend t₀ u₀
      (do Run.discard (s.path backend ".h.tmp"); Run.discard (s.path backend ".c.tmp")) :=
    (local_discard hbackend hheader').bind fun _ _ _ => local_discard hbackend hsource'
  have hstaged : s.Local backend t₀ u₀ (do
      Run.writeFile (s.path backend ".h.tmp") code.header
      Run.writeFile (s.path backend ".c.tmp") code.source) :=
    (local_write hbackend hheader' _).bind fun _ _ _ => local_write hbackend hsource' _
  refine .bind (S := s.SharesWritten backend [] t₀ u₀) (.orElseDo (hstaged.mono (fun _ _ h => h)
    (fun _ _ h => ⟨h, by simp⟩) fun _ _ h => h) hdiscard) fun _ _ _ => ?_
  refine .bind (.orElseDo (alike_rename hbackend hheader' hheader (by decide) (by simp) _) hdiscard)
    fun _ _ _ => ?_
  exact .orElseDo (alike_rename hbackend hsource' hsource (by decide) (by decide) _)
    ((local_discard hbackend hsource').bind fun _ _ _ => local_discard hbackend hheader)

theorem alike_writeArtifacts {code : GeneratedCode}
    (hbackend : code.backend ∈ Registry.builtin.names) :
    Alike (s.Shares t₀ u₀) (s.SharesWritten code.backend [".c", ".h"] t₀ u₀) (s.Shares t₀ u₀)
      (Run.writeArtifacts s.directory s.name code) := by
  unfold Run.writeArtifacts
  refine .bind (alike_makeDirectories hbackend) fun _ _ _ => ?_
  refine Alike.mono (.bind (local_writeIgnore hbackend) fun _ _ _ =>
    .bind (alike_writePair hbackend) fun _ _ _ => .bind (.report _) fun _ _ _ => .pure _)
    (fun _ _ h => h) (fun _ _ h => h) fun _ _ h => h.toShares

/-! ## Formatting -/

theorem locate_path (h : s.Stands t) (hbackend : backend ∈ Registry.builtin.names)
    (hopen : s.Opened backend t) (hending : ending ∈ endings) :
    (t.locate (s.path backend ending)).toOption.map (·.place) =
      match Tree.checkEntry (Artifacts.outputDirectory s.directory backend) (s.name ++ ending) with
      | .ok _ => some (s.artifact backend ending)
      | .error _ => none := by
  rw [path, Tree.locate_join (h.reaches_output hbackend hopen) (s.plain_artifact hending)]
  cases Tree.checkEntry (Artifacts.outputDirectory s.directory backend) (s.name ++ ending) <;> rfl

theorem mem_leads {q : Place} (h : s.Stands t) (hbackend : backend ∈ Registry.builtin.names)
    (hopen : s.Opened backend t) :
    q ∈ t.leads [s.path backend ".h", s.path backend ".c"] ↔ ∃ ending ∈ [".h", ".c"],
      Tree.checkEntry (Artifacts.outputDirectory s.directory backend) (s.name ++ ending) = .ok () ∧
        s.artifact backend ending = q := by
  have hmap : [s.path backend ".h", s.path backend ".c"] = [".h", ".c"].map (s.path backend) := rfl
  rw [hmap, Tree.leads, List.filterMap_map, List.mem_filterMap]
  refine exists_congr fun ending => and_congr_right fun hending => ?_
  have hending : ending ∈ endings := List.mem_of_mem_take (i := 2) hending
  rw [Function.comp_apply, locate_path h hbackend hopen hending]
  cases Tree.checkEntry (Artifacts.outputDirectory s.directory backend) (s.name ++ ending) with
  | error e => simp
  | ok _ => simp

/-- Artifacts that are files have contents. -/
theorem SharesWritten.written_of (h : s.SharesWritten backend [".c", ".h"] t₀ u₀ t u)
    (hbackend : backend ∈ Registry.builtin.names) :
    (Artifacts.of s.directory s.name backend).Written t := by
  intro path hpath
  obtain ⟨ending, hmem, rfl⟩ := List.mem_map (f := s.path backend) (l := [".h", ".c"]).mp hpath
  obtain ⟨hentry, hfile⟩ := h.written ending (by simpa [or_comm] using hmem)
  rw [h.left.contents?_path hbackend (List.mem_of_mem_take (i := 2) hmem), hentry]
  rw [Tree.hasFile] at hfile
  split at hfile
  · rename_i bytes hnode
    rw [hnode]
    rfl
  · cases hfile

theorem alike_format {launch : Launcher} {formatter : String}
    (hformatter : Confined launch formatter (.of s.directory s.name backend))
    (hbackend : backend ∈ Registry.builtin.names) :
    Alike (s.SharesWritten backend [".c", ".h"] t₀ u₀) (s.SharesOpened backend t₀ u₀)
      (s.SharesOpened backend t₀ u₀)
      (Run.format launch formatter (Artifacts.of s.directory s.name backend)) := by
  have hending : ∀ ending ∈ [".h", ".c"], ending ∈ endings := fun ending hmem =>
    List.mem_of_mem_take (i := 2) hmem
  refine .format fun t u h => ?_
  have hleads : u.leads [s.path backend ".h", s.path backend ".c"] ⊆
      t.leads [s.path backend ".h", s.path backend ".c"] := fun q hq =>
    (mem_leads h.left hbackend h.openLeft).mpr ((mem_leads h.right hbackend h.openRight).mp hq)
  have hsame : ∀ path ∈ [s.path backend ".h", s.path backend ".c"],
      t.contents? path = u.contents? path := by
    intro path hpath
    obtain ⟨ending, hmem, rfl⟩ := List.mem_map (f := s.path backend) (l := [".h", ".c"]).mp hpath
    exact h.contents? hbackend (hending ending hmem)
  have hwritten := h.written_of hbackend
  have hwritten' : (Artifacts.of s.directory s.name backend).Written u := fun path hpath =>
    hsame path hpath ▸ hwritten path hpath
  have ht := hformatter.keeps t hwritten
  have hu := (hformatter.keeps u hwritten').mono hleads (fun _ h => h)
  have hcontents := hformatter.contents t u hwritten hsame
  refine h.change hbackend (fun q hq => ?_) ht hu fun q hq hown => ?_
  · obtain ⟨ending, hmem, -, rfl⟩ := (mem_leads h.left hbackend h.openLeft).mp hq
    exact List.mem_cons_of_mem _ (artifact_mem_artifacts (hending ending hmem))
  · obtain ⟨ending, hmem, hentry, rfl⟩ := (mem_leads h.left hbackend h.openLeft).mp hq
    have hbytes := hcontents (s.path backend ending)
      (List.mem_map_of_mem (f := s.path backend) hmem)
    rw [path, Tree.contents?_join ((h.left.reaches_output hbackend h.openLeft).keeps ht)
        (s.plain_artifact (hending ending hmem)),
      Tree.contents?_join ((h.right.reaches_output hbackend h.openRight).keeps hu)
        (s.plain_artifact (hending ending hmem)), hentry] at hbytes
    refine Node.ext_of_bytes hbytes ?_
    rw [ht.directory _ List.not_mem_nil, hu.directory _ List.not_mem_nil, h.own _ hown]

/-! ## Specs -/

theorem alike_generateSpec {launch : Launcher} {config : ProjectConfig} {spec : SpecFile}
    (hformatter : config.ConfinedTo launch spec.directory spec.name)
    (hdirectory : spec.directory = s.directory) (hname : spec.name = s.name) :
    Alike (s.Shares t₀ u₀) (s.Shares t₀ u₀) (s.Shares t₀ u₀)
      (Run.generateSpec launch config spec) := by
  have hcompile : Alike (s.Shares t₀ u₀) (s.Shares t₀ u₀) (s.Shares t₀ u₀)
      (Run.compileSpec spec) := by
    refine .bind (.report _) fun _ _ _ => ?_
    split
    · exact .pure _
    · exact .throw _
  have hgenerate (surface : Surface) : Alike (s.Shares t₀ u₀) (s.Shares t₀ u₀) (s.Shares t₀ u₀)
      (Run.generateCode config.interfaces spec surface) := by
    refine .bind (.report _) fun _ _ _ => ?_
    split
    · exact .pure _
    · exact .throw _
  refine .bind hcompile fun surface _ _ => .bind (hgenerate surface) fun code w hcode => ?_
  have hbackend := Registry.backend_of_generate (Run.generate_of_generateCode hcode)
  rw [hdirectory, hname] at hformatter ⊢
  refine .bind (alike_writeArtifacts hbackend) fun a w ha => ?_
  cases Run.eq_of_writeArtifacts ha
  cases hconfig : config.formatter with
  | none => exact Alike.mono (.pure _) (fun _ _ h => h.toShares) (fun _ _ h => h) fun _ _ h => h
  | some formatter =>
    exact Alike.mono (.bind (alike_format (hformatter formatter hconfig _ hbackend) hbackend)
      fun _ _ _ => .pure _) (fun _ _ h => h) (fun _ _ h => h.toShares) fun _ _ h => h.toShares

end Site

end NativeInterface
