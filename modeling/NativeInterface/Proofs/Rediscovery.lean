import NativeInterface.Proofs.Discovered
import NativeInterface.Proofs.Plans

/-!
# Looking for specs again

Every spec that is found and can be read has a site (`Site.Listed`), also when it is the root
itself. What generation makes beside a spec is passed over when specs are looked for, and it is
neither a spec nor the configuration. So the specs and the configuration are the same afterwards.
-/

namespace NativeInterface
open NativeInterface.Path (Plain join)

/-! ## Paths to files -/

namespace Path

/-- Every path is a front with what stands behind its last slash. -/
theorem exists_isFront (path : String) : ∃ (front : List Char) (name : String),
    IsFront front ∧ path.toList = front ++ name.toList ∧ '/' ∉ name.toList := by
  by_cases hslash : '/' ∈ path.toList
  · obtain ⟨back, rest, hsplit, hback⟩ :=
      List.eq_append_cons_of_mem (List.mem_reverse.mpr hslash)
    refine ⟨rest.reverse ++ ['/'], String.ofList back.reverse, .inr ⟨_, rfl⟩, ?_, ?_⟩
    · rw [← List.reverse_reverse path.toList, hsplit]
      simp
    · simpa using hback
  · exact ⟨[], path, .inl rfl, rfl, hslash⟩

theorem eq_join_of_front {path name : String} {front : List Char} (hfront : IsFront front)
    (hpath : path.toList = front ++ name.toList) (hslash : '/' ∉ name.toList) :
    path = join (String.ofList front) name := by
  have hhead : name.toList.head? ≠ some '/' := fun hhead => hslash (List.mem_of_mem_head? hhead)
  have hend : ((String.ofList front).isEmpty
      || (String.ofList front).toList.getLast? = some '/') = true := by
    rcases hfront with rfl | ⟨cs, rfl⟩
    · rfl
    · simp
  rw [join, if_neg hhead, if_pos hend]
  apply String.toList_inj.mp
  rw [hpath, String.toList_append, String.toList_ofList]

end Path

namespace Tree
variable {t t' : Tree} {path name : String} {place : Place} {node : Node}

/-- A path leads to the same node as long as directories stay and the node does. -/
theorem stat_of_stays
    (hstays : ∀ place, t.get? place = some .directory → t'.get? place = some .directory)
    (h : t.stat path = .ok (place, node)) (hnode : t'.get? place = t.get? place) :
    t'.stat path = .ok (place, node) := by
  obtain ⟨target, hlocate, rfl, hget, hfalse⟩ := exists_of_stat h
  unfold stat
  rw [locate_of_stays hstays hlocate]
  dsimp only [bind, Except.bind]
  rw [hnode, hget]
  cases node with
  | directory => rfl
  | file bytes => rw [hfalse fun h => by cases h]; rfl

theorem read_of_stat (h : t'.stat path = t.stat path) : t'.read path = t.read path := by
  unfold read readBytes
  rw [h]

theorem exists_file_of_read {text : String} (hstat : t.stat path = .ok (place, node))
    (hread : t.read path = .ok text) : ∃ bytes, node = .file bytes := by
  cases node with
  | directory =>
    unfold read readBytes at hread
    rw [hstat] at hread
    cases hread
  | file bytes => exact ⟨bytes, rfl⟩

theorem isFile_of_stat (h : t'.stat path = t.stat path) : t'.isFile path = t.isFile path := by
  unfold isFile
  rw [h]

theorem segments_of_locate {target : Target} (h : t.locate path = .ok target)
    (hfile : target.isDirectory = false) : ∃ front last, segments path = front ++ [last] ∧
      last ≠ "." ∧ last ≠ ".." ∧ path.toList.getLast? ≠ some '/' := by
  rcases locate_cases h with ⟨-, rfl⟩ | ⟨front, last, place, hlast, -, hcases⟩
  · cases hfile
  rcases hcases with ⟨-, rfl⟩ | ⟨-, rfl⟩ | ⟨hhere, hup, -, rfl⟩
  · cases hfile
  · cases hfile
  · exact ⟨front, last, hlast, hhere, hup, of_decide_eq_false hfile⟩

/-- A path to a directory leads through it. -/
theorem reaches_of_stat (h : t.stat path = .ok (place, .directory)) : t.Reaches path place := by
  obtain ⟨target, hlocate, rfl, hnode, -⟩ := exists_of_stat h
  unfold Reaches
  rcases locate_cases hlocate with ⟨hnil, rfl⟩ | ⟨front, last, place, hlast, hfront, hcases⟩
  · rw [hnil]
    rfl
  rw [hlast, enter_append, hfront]
  rcases hcases with ⟨rfl, rfl⟩ | ⟨rfl, rfl⟩ | ⟨hhere, hup, hcheck, rfl⟩
  · rfl
  · rfl
  · show t.enter place [last] = _
    rw [enter.eq_4 _ _ _ _ hhere hup, hcheck, hnode]
    rfl

/-- A path to a file is an entry of a directory. -/
theorem exists_join_of_stat {bytes : List UInt8} (h : t.stat path = .ok (place, .file bytes)) :
    ∃ directory name, Plain name ∧ path = join directory name := by
  obtain ⟨target, hlocate, -, -, hfile⟩ := exists_of_stat h
  obtain ⟨front', last, hlast, hhere, hup, hend⟩ :=
    segments_of_locate hlocate (hfile fun h => by cases h)
  obtain ⟨front, name, hfront, hpath, hslash⟩ := Path.exists_isFront path
  have hnames : Path.names front ++ Path.names name.toList = front' ++ [last] := by
    rw [← Path.names_front hfront, ← hpath, ← Path.segments_eq, hlast]
  refine ⟨String.ofList front, name, ⟨?_, hslash, ?_, ?_⟩,
    Path.eq_join_of_front hfront hpath hslash⟩
  · rintro rfl
    rcases hfront with rfl | ⟨cs, rfl⟩
    · rw [Path.segments_eq, hpath] at hlast
      exact absurd hlast (by simp [Path.names, Text.splitOn])
    · exact hend (by simp [hpath])
  · rintro rfl
    exact hhere (List.singleton_inj.mp (List.append_inj' hnames rfl).2).symm
  · rintro rfl
    exact hup (List.singleton_inj.mp (List.append_inj' hnames rfl).2).symm

/-- Files have no entries. -/
theorem isFile_join_of_file {bytes : List UInt8} (h : t.stat path = .ok (place, .file bytes))
    (hname : Plain name) : t.isFile (join path name) = false := by
  unfold isFile
  cases hstat : t.stat (join path name) with
  | error e => rfl
  | ok found =>
    obtain ⟨target, hlocate, -⟩ := exists_of_stat hstat
    obtain ⟨inner, hinner, -, -⟩ := exists_reaches hname hlocate
    obtain ⟨directory, last, hlast, rfl⟩ := exists_join_of_stat h
    obtain ⟨outer, houter, rfl⟩ := hinner.of_join hlast
    obtain ⟨target', hlocate', rfl, hnode, -⟩ := exists_of_stat h
    obtain ⟨outer', houter', hentry, rfl⟩ := exists_reaches hlast hlocate'
    cases houter.unique houter'
    have hcheck : checkName last = .ok () := by
      unfold checkEntry at hentry
      cases hpath : checkPath (join directory last) with
      | error e =>
        rw [hpath] at hentry
        cases hentry
      | ok _ =>
        rw [hpath] at hentry
        exact hentry
    have henter := houter.enter_join hlast hcheck
    rw [hnode] at henter
    cases hinner.symm.trans henter

end Tree

/-! ## Sites of specs -/

namespace Site
variable {s s' : Site} {t t' : Tree} {root path path' : String} {start place : Place}

theorem Found.stat_eq {text : String} {front : List String} (h : s.Found t root front path)
    (hread : t.read path = .ok text) : ∃ bytes, t.stat path = .ok (s.spec, .file bytes) := by
  obtain ⟨hentry, bytes, hnode⟩ := h.file hread
  refine ⟨bytes, ?_⟩
  rw [h.path_eq, Tree.stat_join h.reaches h.plain, hentry, ← spec, hnode]
  rfl

/-- The site of a spec that is listed when specs are looked for below a root, which leads to a
place: it is the root itself, or stands below it. -/
inductive Listed (s : Site) (t : Tree) (root : String) (start : Place) (path : String) : Prop
  | root {top : String} (found : s.Found t top [] path) (path_eq : path = root)
    (start_eq : start = s.spec)
  | below {front : List String} (found : s.Found t root front path)
    (place_eq : s.place = start ++ front)

namespace Listed

theorem found (h : s.Listed t root start path) : ∃ top front, s.Found t top front path := by
  cases h with
  | root found => exact ⟨_, _, found⟩
  | below found => exact ⟨_, _, found⟩

/-- Specs at different paths have different sites. -/
theorem ne (h : s.Listed t root start path) (h' : s'.Listed t root start path')
    (hne : path ≠ path') : s.place ≠ s'.place ∨ s.name ≠ s'.name := by
  have hlength {a b : Site} {front : List String} (ha : start = a.spec)
      (hb : b.place = start ++ front) : a.place.length < b.place.length := by
    rw [hb, ha, spec]
    simp only [List.length_append, List.length_singleton]
    omega
  cases h with
  | root found path_eq start_eq =>
    cases h' with
    | root found' path_eq' => exact absurd (path_eq.trans path_eq'.symm) hne
    | below found' place_eq =>
      exact .inl fun hplace => Nat.lt_irrefl _ (hplace ▸ hlength start_eq place_eq)
  | below found place_eq =>
    cases h' with
    | root found' path_eq' start_eq =>
      exact .inl fun hplace => Nat.lt_irrefl _ (hplace ▸ hlength start_eq place_eq)
    | below found' place_eq' => exact found.ne found' hne

/-- The site of a path is the only one. -/
theorem unique (h : s.Listed t root start path) (h' : s'.Listed t root start path) : s = s' := by
  obtain ⟨top, front, found⟩ := h.found
  obtain ⟨top', front', found'⟩ := h'.found
  have hdirectory : s.directory = s'.directory := found.directory_eq.trans found'.directory_eq.symm
  have hreaches := found.stands.reaches
  rw [hdirectory] at hreaches
  have hplace := hreaches.unique found'.stands.reaches
  have hname := found.name_eq.trans found'.name_eq.symm
  cases s
  cases s'
  cases hdirectory
  cases hplace
  cases hname
  rfl

section
variable (h : s.Listed t root start path) (hplace : s.generated <+: place)
include h hplace

/-- The root is none of the files beside a spec. -/
theorem start_ne : start ≠ place := by
  obtain ⟨rest, rfl⟩ := hplace
  cases h with
  | root found path_eq start_eq =>
    rw [start_eq, spec, generated, List.append_assoc]
    intro heq
    have heq := List.append_cancel_left heq
    rw [List.singleton_append, List.cons.injEq] at heq
    exact append_specSuffix_ne (by simp) heq.1
  | below found place_eq =>
    rw [generated, place_eq]
    intro heq
    have hlength := congrArg List.length heq
    simp only [List.length_append, List.length_singleton] at hlength
    omega

/-- Neither is the configuration. -/
theorem config_ne : start ++ [Event.configFile] ≠ place := by
  obtain ⟨rest, rfl⟩ := hplace
  cases h with
  | root found path_eq start_eq =>
    rw [start_eq, spec, generated, List.append_assoc, List.append_assoc]
    intro heq
    have heq := List.append_cancel_left heq
    rw [List.singleton_append, List.singleton_append, List.cons.injEq] at heq
    exact append_specSuffix_ne (by simp) heq.1
  | @below front found place_eq =>
    rw [generated, place_eq, List.append_assoc, List.append_assoc]
    intro heq
    have heq := List.append_cancel_left heq
    cases front with
    | nil =>
      rw [List.nil_append, List.singleton_append, List.cons.injEq] at heq
      exact absurd heq.1 (by decide)
    | cons name front => simp at heq

/-- What generation makes is passed over. -/
theorem specPath?_eq_none (node : Node) : Discovery.specPath? root start place node = none := by
  obtain ⟨rest, rfl⟩ := hplace
  unfold Discovery.specPath?
  cases node with
  | directory => rfl
  | file bytes =>
    dsimp only
    refine if_neg ?_
    rw [Bool.and_eq_true, Bool.and_eq_true]
    rintro ⟨⟨hstart, hopen⟩, hname⟩
    cases h with
    | root found path_eq start_eq =>
      -- A file is in front of no other place.
      obtain ⟨inner, hinner⟩ := List.isPrefixOf_iff_prefix.mp hstart
      rw [start_eq, spec, generated, List.append_assoc, List.append_assoc] at hinner
      have heq := List.append_cancel_left hinner
      rw [List.singleton_append, List.singleton_append, List.cons.injEq] at heq
      exact append_specSuffix_ne (by simp) heq.1
    | @below front found place_eq =>
      rw [generated, place_eq, List.append_assoc, List.append_assoc, List.drop_left] at hopen hname
      rcases List.eq_nil_or_concat rest with rfl | ⟨inner, last, rfl⟩
      · rw [List.append_nil, List.foldl_append] at hname
        change ((Path.fileName? (join (front.foldl join root) generatedName)).map
          Discovery.isSpecName).getD false = true at hname
        rw [Path.fileName?_join plain_generatedName] at hname
        exact absurd hname (by decide)
      · rw [List.concat_eq_append, ← List.append_assoc, ← List.append_assoc, List.dropLast_concat,
          List.all_append, List.all_append, Bool.and_eq_true, Bool.and_eq_true] at hopen
        exact absurd hopen.1.2 (by decide)

end

end Listed

/-- No spec file is one of the files or directories that generation makes. -/
theorem spec_ne_of_edit {code : GeneratedCode} {e : Tree.Edit} (he : e ∈ (s'.plan code t).edits)
    (hbackend : code.backend ∈ Registry.builtin.names) : s.spec ≠ e.place := by
  rcases edit_cases he hbackend with ⟨hplace, -⟩ | rfl | ⟨ending, hending, hplace, -⟩
  · exact fun heq => spec_notMem_directories (heq ▸ hplace)
  · intro heq
    have hname : s.name ++ specSuffix = ".gitignore" :=
      List.singleton_inj.mp (List.append_inj' heq rfl).2
    exact append_specSuffix_ne (by simp) hname
  · exact fun heq => spec_notMem_own (heq ▸ hplace ▸ artifact_mem_own hbackend hending)

end Site

namespace Discovery
variable {t : Tree} {root path : String} {start : Place} {node : Node} {paths : List String}

/-- Every spec that is found and can be read has a site. -/
theorem exists_listed (hwf : t.WellFormed) (hstat : t.stat root = .ok (start, node))
    (hpaths : specPaths t root = .ok paths) (hpath : path ∈ paths) {text : String}
    (hread : t.read path = .ok text) : ∃ s : Site, s.Listed t root start path := by
  rcases spec_cases hwf hpaths hpath with rfl | ⟨front, base, hfront, hbase, hpath_eq⟩
  · obtain ⟨bytes, rfl⟩ := Tree.exists_file_of_read hstat hread
    obtain ⟨directory, last, hlast, hjoin⟩ := Tree.exists_join_of_stat hstat
    obtain ⟨start', n, hn, hfound⟩ := exists_of_mem_specPaths hpaths hpath
    obtain ⟨-, name, hname, hspec⟩ := exists_of_specPath? hfound
    rw [hjoin, Path.fileName?_join hlast] at hname
    cases hname
    obtain ⟨base, rfl⟩ := exists_of_isSpecName hspec
    have hs : ∃ s : Site, s.Found t directory [] path :=
      Site.exists_found hwf (List.forall_mem_nil _) hlast hjoin hread
    obtain ⟨s, hs⟩ := hs
    obtain ⟨bytes', hstat'⟩ := hs.stat_eq hread
    cases hstat.symm.trans hstat'
    exact ⟨s, .root hs rfl rfl⟩
  · obtain ⟨s, hs⟩ := Site.exists_found hwf hfront hbase hpath_eq hread
    obtain ⟨target, hlocate, rfl, -⟩ := Tree.exists_of_stat hstat
    obtain ⟨start', hstart, hplace⟩ := hs.below
    rw [← hstart.eq_of_locate hlocate] at hplace
    exact ⟨s, .below hs hplace⟩

/-! ## After edits -/

/-- An edit that is beside a spec which is listed and can be read. -/
structure Beside (t : Tree) (root : String) (start : Place) (e : Tree.Edit) : Prop where
  site : ∃ (s : Site) (path : String), s.Listed t root start path ∧ s.generated <+: e.place
  spec : ∀ s : Site, s.spec ≠ e.place

section
variable {es : List Tree.Edit} (hbeside : ∀ e ∈ es, Beside t root start e)
  (hstays : ∀ place, t.get? place = some .directory → (t.edits es).get? place = some .directory)
include hbeside hstays

theorem stat_edits (hstat : t.stat root = .ok (start, node)) :
    (t.edits es).stat root = .ok (start, node) := by
  refine Tree.stat_of_stays hstays hstat (Tree.get?_edits_of_ne fun e he => ?_)
  obtain ⟨s, path, hs, hplace⟩ := (hbeside e he).site
  exact hs.start_ne hplace

theorem specPaths_edits (hstat : t.stat root = .ok (start, node)) :
    specPaths (t.edits es) root = specPaths t root := by
  unfold specPaths
  rw [stat_edits hbeside hstays hstat, hstat]
  dsimp only [bind, Except.bind]
  rw [Tree.filterMap_edits fun e he node => ?_]
  obtain ⟨s, path, hs, hplace⟩ := (hbeside e he).site
  exact hs.specPath?_eq_none hplace node

theorem read_edits {s : Site} {text : String} (hs : s.Listed t root start path)
    (hread : t.read path = .ok text) : (t.edits es).read path = .ok text := by
  obtain ⟨top, front, found⟩ := hs.found
  obtain ⟨bytes, hstat⟩ := found.stat_eq hread
  have hstat' : (t.edits es).stat path = t.stat path :=
    (Tree.stat_of_stays hstays hstat (Tree.get?_edits_of_ne fun e he =>
      (hbeside e he).spec s)).trans hstat.symm
  rw [Tree.read_of_stat hstat', hread]

/-- The configuration is read from a file that generation leaves alone. -/
theorem loadConfig_edits (hstat : t.stat root = .ok (start, node)) {w v : World} (hw : w.tree = t)
    (hv : v.tree = t.edits es) :
    (Run.loadConfig root).outcome v = (Run.loadConfig root).outcome w := by
  have hplain : Plain Event.configFile := by decide
  have hstat' := stat_edits hbeside hstays hstat
  rw [(Run.run_loadConfig rfl v).1, (Run.run_loadConfig rfl w).1, hw, hv]
  cases node with
  | file bytes =>
    rw [Tree.isFile_join_of_file hstat hplain, Tree.isFile_join_of_file hstat' hplain]
    rfl
  | directory =>
    have hnode : (t.edits es).get? (start ++ [Event.configFile]) =
        t.get? (start ++ [Event.configFile]) := by
      refine Tree.get?_edits_of_ne fun e he => ?_
      obtain ⟨s, path, hs, hplace⟩ := (hbeside e he).site
      exact hs.config_ne hplace
    have hconfig : (t.edits es).stat (join root Event.configFile) =
        t.stat (join root Event.configFile) := by
      rw [Tree.stat_join (Tree.reaches_of_stat hstat') hplain,
        Tree.stat_join (Tree.reaches_of_stat hstat) hplain, hnode]
    rw [Tree.isFile_of_stat hconfig, Tree.read_of_stat hconfig]

end

end Discovery

end NativeInterface
