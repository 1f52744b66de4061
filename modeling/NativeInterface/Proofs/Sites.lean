import NativeInterface.Proofs.Runs
import NativeInterface.Proofs.TreeOperations

/-!
# Where the output of a spec goes

A spec changes files of its own name in the output directories beside it, makes these directories,
and shares with its neighbours one file that says what to ignore. Two trees agree for a site when
the spec cannot tell them apart (`Site.Agree`).
-/

namespace NativeInterface
open NativeInterface.Path (Plain join)

namespace Registry

theorem names_builtin : builtin.names = ["cnode", "nif"] := by decide

theorem backend_of_generate {name : String} {s : Surface} {config : InterfaceConfig}
    {code : GeneratedCode} (h : builtin.generate name s config = .ok code) :
    code.backend ∈ builtin.names := by
  unfold generate resolve at h
  cases hname : s.backendName config with
  | error e =>
    rw [hname] at h
    cases h
  | ok name =>
    rw [hname] at h
    dsimp only [bind, Except.bind] at h
    cases hb : builtin.get? name with
    | none =>
      rw [hb] at h
      cases h
    | some b =>
      rw [hb] at h
      cases h
      exact List.mem_map_of_mem (List.mem_of_find?_eq_some hb)

end Registry

/-- The directory of a spec, the place that it leads to, and the name of the spec. -/
structure Site where
  directory : String
  place : Place
  name : String
  noSlash : '/' ∉ name.toList

namespace Site

/-! ## Places -/

/-- How the names of artifacts end, staged ones included. -/
def endings : List String := [".h", ".c", ".h.tmp", ".c.tmp"]

/-- The directory for generated files. -/
def generated (s : Site) : Place := s.place ++ [generatedName]

/-- The directory for the artifacts of a backend. -/
def output (s : Site) (backend : String) : Place := s.generated ++ [backend]

/-- The file that says what to ignore. -/
def ignore (s : Site) : Place := s.generated ++ [".gitignore"]

def artifact (s : Site) (backend ending : String) : Place :=
  s.output backend ++ [s.name ++ ending]

/-- The artifacts of a backend. -/
def artifacts (s : Site) (backend : String) : List Place := endings.map (s.artifact backend)

/-- The artifacts of all backends. -/
def own (s : Site) : List Place := Registry.builtin.names.flatMap s.artifacts

/-- The places of all files that are written. -/
def files (s : Site) : List Place := s.ignore :: s.own

/-- The places of all directories that are made. -/
def directories (s : Site) : List Place := s.generated :: Registry.builtin.names.map s.output

theorem append_ending_inj {name name' ending ending' : String} (h : ending ∈ endings)
    (h' : ending' ∈ endings) (heq : name ++ ending = name' ++ ending') :
    name = name' ∧ ending = ending' := by
  have hlist := congrArg (fun s : String => s.toList.reverse) heq
  simp only [endings, List.mem_cons, List.not_mem_nil, or_false] at h h'
  rcases h with rfl | rfl | rfl | rfl <;> rcases h' with rfl | rfl | rfl | rfl <;>
    simp at hlist ⊢ <;> exact String.toList_inj.mp hlist

/-- The names of artifacts end in other letters than all other names here. -/
theorem append_ending_ne {name ending other : String} (h : ending ∈ endings)
    (hother : other ∈ [".gitignore", generatedName, "cnode", "nif"]) : name ++ ending ≠ other := by
  intro heq
  have hlist := congrArg (fun s : String => s.toList.reverse) heq
  simp only [endings, generatedName, List.mem_cons, List.not_mem_nil, or_false] at h hother
  rcases h with rfl | rfl | rfl | rfl <;> rcases hother with rfl | rfl | rfl | rfl <;>
    simp at hlist

theorem plain_artifact (s : Site) {ending : String} (h : ending ∈ endings) :
    Plain (s.name ++ ending) := by
  simp only [endings, List.mem_cons, List.not_mem_nil, or_false] at h
  rcases h with rfl | rfl | rfl | rfl
  · exact Plain.append (c := 'h') s.noSlash (by decide) rfl (by decide)
  · exact Plain.append (c := 'c') s.noSlash (by decide) rfl (by decide)
  · exact Plain.append (c := 'p') s.noSlash (by decide) rfl (by decide)
  · exact Plain.append (c := 'p') s.noSlash (by decide) rfl (by decide)

section
variable {s s' : Site} {place : Place} {backend backend' : String}

theorem mem_own : place ∈ s.own ↔
    ∃ backend ∈ Registry.builtin.names, place ∈ s.artifacts backend :=
  List.mem_flatMap

theorem mem_artifacts : place ∈ s.artifacts backend ↔
    ∃ ending ∈ endings, s.artifact backend ending = place :=
  List.mem_map

theorem artifact_mem_artifacts {ending : String} (h : ending ∈ endings) :
    s.artifact backend ending ∈ s.artifacts backend :=
  List.mem_map_of_mem h

theorem artifact_mem_own {ending : String} (hbackend : backend ∈ Registry.builtin.names)
    (h : ending ∈ endings) : s.artifact backend ending ∈ s.own :=
  mem_own.mpr ⟨backend, hbackend, artifact_mem_artifacts h⟩

theorem artifact_ne_nil (s : Site) (backend ending : String) : s.artifact backend ending ≠ [] := by
  simp [artifact]

/-- An artifact belongs to one backend of one spec. -/
theorem artifacts_inj (h : place ∈ s.artifacts backend) (h' : place ∈ s'.artifacts backend') :
    s.place = s'.place ∧ s.name = s'.name ∧ backend = backend' := by
  obtain ⟨ending, hending, rfl⟩ := mem_artifacts.mp h
  obtain ⟨ending', hending', heq⟩ := mem_artifacts.mp h'
  obtain ⟨houtput, hname⟩ := List.append_inj' heq rfl
  obtain ⟨hgenerated, hbackend⟩ := List.append_inj' houtput rfl
  obtain ⟨hplace, -⟩ := List.append_inj' hgenerated rfl
  have hname := (append_ending_inj hending' hending (List.singleton_inj.mp hname)).1
  exact ⟨hplace.symm, hname.symm, (List.singleton_inj.mp hbackend).symm⟩

/-- No artifact stands where a directory or the list of what to ignore goes. -/
theorem artifact_ne {other : String} {front : Place} (h : place ∈ s.own)
    (hother : other ∈ [".gitignore", generatedName, "cnode", "nif"]) :
    place ≠ front ++ [other] := by
  obtain ⟨backend, -, hplace⟩ := mem_own.mp h
  obtain ⟨ending, hending, rfl⟩ := mem_artifacts.mp hplace
  intro heq
  obtain ⟨-, hname⟩ := List.append_inj' heq rfl
  exact append_ending_ne hending hother (List.singleton_inj.mp hname)

theorem exists_of_mem_directories (h : place ∈ s.directories) :
    ∃ front other, place = front ++ [other] ∧ other ∈ [generatedName, "cnode", "nif"] := by
  unfold directories at h
  rw [Registry.names_builtin] at h
  simp only [List.map_cons, List.map_nil, List.mem_cons, List.not_mem_nil, or_false] at h
  rcases h with rfl | rfl | rfl
  · exact ⟨s.place, generatedName, rfl, by simp⟩
  · exact ⟨s.generated, "cnode", rfl, by simp⟩
  · exact ⟨s.generated, "nif", rfl, by simp⟩

theorem own_disjoint_directories (h : place ∈ s.own) : place ∉ s'.directories := by
  intro h'
  obtain ⟨front, other, hplace, hother⟩ := exists_of_mem_directories h'
  exact artifact_ne h (List.mem_cons_of_mem _ hother) hplace

theorem own_ne_ignore (h : place ∈ s.own) : place ≠ s'.ignore := artifact_ne h (by simp)

theorem ignore_notMem_directories : s.ignore ∉ s'.directories := by
  intro h
  obtain ⟨front, other, hplace, hother⟩ := exists_of_mem_directories h
  obtain ⟨-, hlast⟩ := List.append_inj' hplace rfl
  cases List.singleton_inj.mp hlast
  exact absurd hother (by decide)

theorem notMem_files_of_directories (h : place ∈ s.directories) : place ∉ s'.files := by
  refine List.not_mem_cons_of_ne_of_not_mem ?_ fun hown => own_disjoint_directories hown h
  rintro rfl
  exact ignore_notMem_directories h

theorem own_disjoint_own (hne : s.place ≠ s'.place ∨ s.name ≠ s'.name) (h : place ∈ s.own) :
    place ∉ s'.own := by
  intro h'
  obtain ⟨backend, -, hplace⟩ := mem_own.mp h
  obtain ⟨backend', -, hplace'⟩ := mem_own.mp h'
  obtain ⟨hp, hn, -⟩ := artifacts_inj hplace hplace'
  exact hne.elim (absurd hp) (absurd hn)

end

/-! ## Trees that a spec cannot tell apart -/

/-- The output directories of a backend are there. -/
structure Opened (s : Site) (backend : String) (t : Tree) : Prop where
  generated : t.get? s.generated = some .directory
  output : t.get? (s.output backend) = some .directory

theorem opened_ensure {s : Site} {backend : String} {t : Tree} (h : t.hasFile s.generated = false)
    (h' : t.hasFile (s.output backend) = false) :
    s.Opened backend ((t.ensure s.generated).ensure (s.output backend)) := by
  have hne : s.generated ≠ [] := by simp [Site.generated]
  have hne' : s.output backend ≠ [] := by simp [Site.output]
  refine ⟨(Tree.Keeps.ensure hne' _).stays _ (Tree.get?_ensure hne h), Tree.get?_ensure hne' ?_⟩
  rw [Tree.hasFile_ensure hne, h']

theorem Opened.keeps {s : Site} {backend : String} {t t' : Tree} {files directories : List Place}
    (h : s.Opened backend t) (hkeeps : t.Keeps files directories t') : s.Opened backend t' :=
  ⟨hkeeps.stays _ h.generated, hkeeps.stays _ h.output⟩

/-- A tree in which the directory of a spec is there, and so are the directories around what stands
at the places of its artifacts. -/
structure Stands (s : Site) (t : Tree) : Prop where
  reaches : t.Reaches s.directory s.place
  housed : ∀ backend ∈ Registry.builtin.names, ∀ place ∈ s.artifacts backend,
    t.get? place ≠ none → s.Opened backend t

/-- Trees with the same nodes at the places of artifacts, files in the same places of directories,
and both or neither with a directory where the list of what to ignore goes. -/
structure Agree (s : Site) (t u : Tree) : Prop where
  left : s.Stands t
  right : s.Stands u
  own : ∀ place ∈ s.own, t.get? place = u.get? place
  blocked : ∀ place ∈ s.directories, t.hasFile place = u.hasFile place
  ignore : t.get? s.ignore = some .directory ↔ u.get? s.ignore = some .directory

section
variable {s s' : Site} {t t' u u' : Tree} {files directories : List Place}

theorem Stands.keeps (h : s.Stands t) (hkeeps : t.Keeps files directories t')
    (hown : ∀ backend ∈ Registry.builtin.names, ∀ place ∈ s.artifacts backend,
      t'.get? place = t.get? place ∨ s.Opened backend t') :
    s.Stands t' where
  reaches := h.reaches.keeps hkeeps
  housed backend hbackend place hplace hnode := by
    rcases hown backend hbackend place hplace with heq | hmade
    · exact (h.housed backend hbackend place hplace (heq ▸ hnode)).keeps hkeeps
    · exact hmade

namespace Agree

theorem symm (h : s.Agree t u) : s.Agree u t where
  left := h.right
  right := h.left
  own place hplace := (h.own place hplace).symm
  blocked place hplace := (h.blocked place hplace).symm
  ignore := h.ignore.symm

theorem refl (h : s.Stands t) : s.Agree t t := ⟨h, h, fun _ _ => rfl, fun _ _ => rfl, .rfl⟩

/-- A spec does not notice what happens elsewhere. -/
theorem keeps (h : s.Agree t u) (hkeeps : t.Keeps files directories t')
    (hown : ∀ place ∈ s.own, place ∉ files ∧ place ∉ directories)
    (hdirectories : ∀ place ∈ s.directories, place ∉ files) (hignore : s.ignore ∉ directories) :
    s.Agree t' u := by
  have heq : ∀ place ∈ s.own, t'.get? place = t.get? place := fun place hplace =>
    hkeeps.get?_eq (hown place hplace).1 (hown place hplace).2
  refine ⟨h.left.keeps hkeeps fun backend hbackend place hplace => ?_, h.right,
    fun place hplace => ?_, fun place hplace => ?_, ?_⟩
  · exact .inl (heq place (mem_own.mpr ⟨backend, hbackend, hplace⟩))
  · rw [heq place hplace, h.own place hplace]
  · rw [hkeeps.hasFile_eq (hdirectories place hplace), h.blocked place hplace]
  · rw [hkeeps.directory _ hignore, h.ignore]

/-- A spec does not notice what another one does. -/
theorem keeps_other (h : s.Agree t u) (hne : s.place ≠ s'.place ∨ s.name ≠ s'.name)
    (hkeeps : t.Keeps s'.files s'.directories t') : s.Agree t' u := by
  refine h.keeps hkeeps (fun place hplace => ⟨?_, own_disjoint_directories hplace⟩)
    (fun place hplace => ?_) ignore_notMem_directories
  · exact List.not_mem_cons_of_ne_of_not_mem (own_ne_ignore hplace) (own_disjoint_own hne hplace)
  · exact notMem_files_of_directories hplace

end Agree

/-! ## The steps of a spec -/

/-- Two trees on the way from others, on which only the files and the directories of a site have
changed. -/
structure Shares (s : Site) (t₀ u₀ t u : Tree) : Prop extends s.Agree t u where
  keptLeft : t₀.Keeps s.files s.directories t
  keptRight : u₀.Keeps s.files s.directories u

/-- The same with the output directories of a backend in both trees. -/
structure SharesOpened (s : Site) (backend : String) (t₀ u₀ t u : Tree) : Prop
    extends s.Shares t₀ u₀ t u where
  openLeft : s.Opened backend t
  openRight : s.Opened backend u

variable {t₀ u₀ : Tree} {backend : String}

/-- Directories of a site are made in both trees. -/
theorem Shares.ensure {place : Place} (h : s.Shares t₀ u₀ t u) (hplace : place ∈ s.directories) :
    s.Shares t₀ u₀ (t.ensure place) (u.ensure place) := by
  have hne : place ≠ [] := by
    obtain ⟨front, other, rfl, -⟩ := exists_of_mem_directories hplace
    simp
  have heq (v : Tree) : ∀ q ∈ s.own, (v.ensure place).get? q = v.get? q := fun q hq =>
    (Tree.Keeps.ensure hne v).get?_eq List.not_mem_nil fun hmem =>
      own_disjoint_directories hq (List.mem_singleton.mp hmem ▸ hplace)
  have hstands (v : Tree) (hv : s.Stands v) : s.Stands (v.ensure place) :=
    hv.keeps (.ensure hne v) fun backend hbackend q hq =>
      .inl (heq v q (mem_own.mpr ⟨backend, hbackend, hq⟩))
  have hkept (v₀ v : Tree) (hv : v₀.Keeps s.files s.directories v) :
      v₀.Keeps s.files s.directories (v.ensure place) :=
    hv.trans ((Tree.Keeps.ensure hne v).mono (List.nil_subset _)
      fun q hq => List.mem_singleton.mp hq ▸ hplace)
  have hignore (v : Tree) : (v.ensure place).get? s.ignore = some .directory ↔
      v.get? s.ignore = some .directory :=
    (Tree.Keeps.ensure hne v).directory _ fun hmem =>
      ignore_notMem_directories (List.mem_singleton.mp hmem ▸ hplace)
  exact
    { left := hstands t h.left
      right := hstands u h.right
      own := fun q hq => by rw [heq t q hq, heq u q hq, h.own q hq]
      blocked := fun q hq => by
        rw [Tree.hasFile_ensure hne, Tree.hasFile_ensure hne, h.blocked q hq]
      ignore := by rw [hignore, hignore, h.ignore]
      keptLeft := hkept t₀ t h.keptLeft
      keptRight := hkept u₀ u h.keptRight }

/-- Files of a site change alike in both trees; the list of what to ignore need not. -/
theorem SharesOpened.change {qs : List Place} (h : s.SharesOpened backend t₀ u₀ t u)
    (hbackend : backend ∈ Registry.builtin.names) (hqs : qs ⊆ s.ignore :: s.artifacts backend)
    (ht : t.Keeps qs [] t') (hu : u.Keeps qs [] u')
    (heq : ∀ q ∈ qs, q ∈ s.own → t'.get? q = u'.get? q) :
    s.SharesOpened backend t₀ u₀ t' u' := by
  have hfiles : qs ⊆ s.files := fun q hq =>
    (List.mem_cons.mp (hqs hq)).elim (fun hignore => hignore ▸ List.mem_cons_self)
      fun hmem => List.mem_cons_of_mem _ (mem_own.mpr ⟨backend, hbackend, hmem⟩)
  have hstands (v v' : Tree) (hv : s.Stands v) (hopen : s.Opened backend v)
      (hkeeps : v.Keeps qs [] v') : s.Stands v' := by
    refine hv.keeps hkeeps fun backend' hbackend' q hq => ?_
    by_cases hmem : q ∈ qs
    · have hown := mem_own.mpr ⟨backend', hbackend', hq⟩
      rcases List.mem_cons.mp (hqs hmem) with hignore | hq'
      · exact absurd hignore (own_ne_ignore hown)
      · rw [← (artifacts_inj hq' hq).2.2]
        exact .inr (hopen.keeps hkeeps)
    · exact .inl (hkeeps.get?_eq hmem List.not_mem_nil)
  have hkept (v₀ v v' : Tree) (hv : v₀.Keeps s.files s.directories v) (hkeeps : v.Keeps qs [] v') :
      v₀.Keeps s.files s.directories v' :=
    hv.trans (hkeeps.mono hfiles (List.nil_subset _))
  exact
    { left := hstands t t' h.left h.openLeft ht
      right := hstands u u' h.right h.openRight hu
      own := fun q hq => by
        by_cases hmem : q ∈ qs
        · exact heq q hmem hq
        · rw [ht.get?_eq hmem List.not_mem_nil, hu.get?_eq hmem List.not_mem_nil, h.own q hq]
      blocked := fun q hq => by
        have hmem : q ∉ qs := fun hmem => notMem_files_of_directories hq (hfiles hmem)
        rw [ht.hasFile_eq hmem, hu.hasFile_eq hmem, h.blocked q hq]
      ignore := by
        rw [ht.directory _ List.not_mem_nil, hu.directory _ List.not_mem_nil, h.ignore]
      keptLeft := hkept t₀ t t' h.keptLeft ht
      keptRight := hkept u₀ u u' h.keptRight hu
      openLeft := h.openLeft.keeps ht
      openRight := h.openRight.keeps hu }

namespace SharesOpened
variable {ending : String}

theorem put (h : s.SharesOpened backend t₀ u₀ t u) (hbackend : backend ∈ Registry.builtin.names)
    (hending : ending ∈ endings) (hnode : t.get? (s.artifact backend ending) ≠ some .directory)
    (bytes : List UInt8) :
    s.SharesOpened backend t₀ u₀ (t.put (s.artifact backend ending) (.file bytes))
      (u.put (s.artifact backend ending) (.file bytes)) := by
  have hne := s.artifact_ne_nil backend ending
  have hnode' : u.get? (s.artifact backend ending) ≠ some .directory := by
    rwa [← h.own _ (artifact_mem_own hbackend hending)]
  refine h.change hbackend ?_ (.put_file hne hnode bytes) (.put_file hne hnode' bytes) ?_
  · exact fun q hq => List.mem_singleton.mp hq ▸
      List.mem_cons_of_mem _ (artifact_mem_artifacts hending)
  · intro q hq _
    rw [List.mem_singleton.mp hq, Tree.get?_put hne, Tree.get?_put hne, if_pos rfl, if_pos rfl]

theorem erase (h : s.SharesOpened backend t₀ u₀ t u) (hbackend : backend ∈ Registry.builtin.names)
    (hending : ending ∈ endings) (hnode : t.get? (s.artifact backend ending) ≠ some .directory) :
    s.SharesOpened backend t₀ u₀ (t.erase (s.artifact backend ending))
      (u.erase (s.artifact backend ending)) := by
  have hne := s.artifact_ne_nil backend ending
  have hnode' : u.get? (s.artifact backend ending) ≠ some .directory := by
    rwa [← h.own _ (artifact_mem_own hbackend hending)]
  refine h.change hbackend ?_ (.erase hne hnode) (.erase hne hnode') ?_
  · exact fun q hq => List.mem_singleton.mp hq ▸
      List.mem_cons_of_mem _ (artifact_mem_artifacts hending)
  · intro q hq _
    rw [List.mem_singleton.mp hq, Tree.get?_erase hne, Tree.get?_erase hne, if_pos rfl, if_pos rfl]

end SharesOpened

end

end Site

end NativeInterface
