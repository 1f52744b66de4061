import NativeInterface.Proofs.LocalRuns

/-!
# Discovered specs

Every spec that is found below a root and can be read has a site of its own (`Site.Found`), and two
paths never share one. What is found does not depend on the contents of the spec files.
-/

namespace NativeInterface
open NativeInterface.Path (Plain join)

namespace Tree
variable {t t' : Tree} {path : String} {place : Place}

/-- A tree as file systems have them: names can be entries of a directory, and every node stands in
one. -/
structure WellFormed (t : Tree) : Prop where
  plain : ∀ n ∈ t.nodes, ∀ name ∈ n.1, Plain name
  housed : ∀ place name, t.get? (place ++ [name]) ≠ none → t.get? place = some .directory

/-- Where a name leads from a place. -/
def toward (place : Place) (name : String) : Place :=
  if name = "." then place else if name = ".." then place.dropLast else place ++ [name]

theorem toward_plain {name : String} (h : Plain name) (place : Place) :
    toward place name = place ++ [name] := by
  rw [toward, if_neg h.ne_here, if_neg h.ne_up]

theorem eq_of_enter_singleton {name : String} {place place' : Place}
    (h : t.enter place [name] = .ok place') : place' = toward place name := by
  unfold toward
  by_cases hhere : name = "."
  · rw [hhere] at h
    rw [if_pos hhere]
    exact (Except.ok.inj h).symm
  rw [if_neg hhere]
  by_cases hup : name = ".."
  · rw [hup] at h
    rw [if_pos hup]
    exact (Except.ok.inj h).symm
  rw [if_neg hup]
  rw [enter.eq_4 _ _ _ _ hhere hup] at h
  cases hcheck : checkName name with
  | error e =>
    rw [hcheck] at h
    cases h
  | ok _ =>
    rw [hcheck] at h
    dsimp only [bind, Except.bind] at h
    split at h
    · exact (Except.ok.inj h).symm
    · cases h
    · cases h

/-- How a path leads somewhere: its last name is followed from a directory. -/
theorem locate_cases {target : Target} (h : t.locate path = .ok target) :
    (segments path = [] ∧ target = ⟨[], true⟩) ∨ ∃ front last place,
      segments path = front ++ [last] ∧ t.enter [] front = .ok place ∧
        ((last = "." ∧ target = ⟨place, true⟩) ∨ (last = ".." ∧ target = ⟨place.dropLast, true⟩) ∨
          (last ≠ "." ∧ last ≠ ".." ∧ checkName last = .ok () ∧
            target = ⟨place ++ [last], path.toList.getLast? = some '/'⟩)) := by
  unfold locate at h
  cases hcheck : checkPath path with
  | error e =>
    rw [hcheck] at h
    cases h
  | ok _ =>
    rw [hcheck] at h
    dsimp only [bind, Except.bind] at h
    rcases List.eq_nil_or_concat (segments path) with hnil | ⟨front, last, hlast⟩
    · rw [hnil] at h
      dsimp only [List.reverse_nil] at h
      split at h <;> cases h
      exact .inl ⟨hnil, rfl⟩
    · rw [List.concat_eq_append] at hlast
      rw [hlast, List.reverse_concat] at h
      dsimp only at h
      rw [List.reverse_reverse] at h
      cases hfront : t.enter [] front with
      | error e =>
        rw [hfront] at h
        cases h
      | ok place =>
        rw [hfront] at h
        refine .inr ⟨front, last, place, hlast, hfront, ?_⟩
        dsimp only at h
        by_cases hhere : last = "."
        · rw [if_pos hhere] at h
          exact .inl ⟨hhere, (Except.ok.inj h).symm⟩
        rw [if_neg hhere] at h
        by_cases hup : last = ".."
        · rw [if_pos hup] at h
          exact .inr (.inl ⟨hup, (Except.ok.inj h).symm⟩)
        rw [if_neg hup] at h
        cases hname : checkName last with
        | error e =>
          rw [hname] at h
          cases h
        | ok _ =>
          rw [hname] at h
          exact .inr (.inr ⟨hhere, hup, rfl, (Except.ok.inj h).symm⟩)

/-- What a path leads to is one name away from a directory. -/
theorem exists_of_locate {target : Target} (h : t.locate path = .ok target) :
    (segments path = [] ∧ target.place = []) ∨ ∃ front last place,
      segments path = front ++ [last] ∧ t.enter [] front = .ok place ∧
        target.place = toward place last := by
  unfold toward
  rcases locate_cases h with ⟨hnil, rfl⟩ | ⟨front, last, place, hlast, hfront, hcases⟩
  · exact .inl ⟨hnil, rfl⟩
  refine .inr ⟨front, last, place, hlast, hfront, ?_⟩
  rcases hcases with ⟨hhere, rfl⟩ | ⟨hup, rfl⟩ | ⟨hhere, hup, -, rfl⟩
  · rw [if_pos hhere]
  · rw [if_neg (by rw [hup]; decide), if_pos hup]
  · rw [if_neg hhere, if_neg hup]

/-- It is enough to look at the nodes that are listed. -/
theorem wellFormed_of_nodes (h : ∀ n ∈ t.nodes, (∀ name ∈ n.1, Plain name) ∧
    t.get? n.1.dropLast = some .directory) : t.WellFormed where
  plain n hn := (h n hn).1
  housed place name hnode := by
    obtain ⟨node, hnode⟩ := Option.ne_none_iff_exists'.mp hnode
    rw [get?_of_ne_nil (by simp)] at hnode
    obtain ⟨front, rest, hnodes, -⟩ := List.lookup_eq_some_iff.mp hnode
    have hmem : (place ++ [name], node) ∈ t.nodes := by simp [hnodes]
    simpa using (h _ hmem).2

namespace Reaches
variable {root path directory name : String} {place place' : Place} {front : List String}

theorem of_join (hname : Plain name) (h : t.Reaches (join directory name) place') :
    ∃ place, t.Reaches directory place ∧ place' = place ++ [name] := by
  unfold Reaches at h
  rw [Path.segments_join hname, enter_append] at h
  cases hplace : t.enter [] (segments directory) with
  | error e =>
    rw [hplace] at h
    cases h
  | ok place =>
    rw [hplace] at h
    exact ⟨place, hplace, (eq_of_enter_singleton h).trans (toward_plain hname place)⟩

theorem of_foldl {front : List String} (hfront : ∀ name ∈ front, Plain name)
    (h : t.Reaches (front.foldl join root) place') :
    ∃ place, t.Reaches root place ∧ place' = place ++ front := by
  induction front generalizing root with
  | nil => exact ⟨place', h, (List.append_nil _).symm⟩
  | cons name front ih =>
    obtain ⟨inner, hinner, rfl⟩ := ih (fun n hn => hfront n (List.mem_cons_of_mem _ hn)) h
    obtain ⟨place, hplace, rfl⟩ := of_join (hfront name List.mem_cons_self) hinner
    exact ⟨place, hplace, by simp⟩

theorem get?_enter (hwf : t.WellFormed) {names : List String} {place place' : Place}
    (hplace : t.get? place = some .directory) (h : t.enter place names = .ok place') :
    t.get? place' = some .directory := by
  fun_induction t.enter place names with
  | case1 =>
    cases h
    exact hplace
  | case2 place rest ih => exact ih hplace h
  | case3 place rest ih =>
    refine ih ?_ h
    rcases List.eq_nil_or_concat place with rfl | ⟨front, name, rfl⟩
    · rfl
    · rw [List.concat_eq_append] at hplace ⊢
      rw [List.dropLast_concat]
      exact hwf.housed front name (by rw [hplace]; exact Option.some_ne_none _)
  | case4 place name rest hhere hup ih =>
    cases hcheck : checkName name with
    | error e =>
      rw [hcheck] at h
      cases h
    | ok _ =>
      rw [hcheck] at h
      dsimp only [bind, Except.bind] at h
      split at h
      · exact ih ‹_› h
      · cases h
      · cases h

theorem get?_eq (hwf : t.WellFormed) (h : t.Reaches path place) :
    t.get? place = some .directory :=
  get?_enter hwf (get?_nil t) h

theorem eq_of_locate {target : Target} (h : t.Reaches path place)
    (htarget : t.locate path = .ok target) : target.place = place := by
  unfold Reaches at h
  rcases exists_of_locate htarget with ⟨hnil, hplace⟩ | ⟨front, last, q, hlast, hq, hplace⟩
  · rw [hnil] at h
    rw [hplace]
    exact Except.ok.inj h
  · rw [hlast, enter_append, hq] at h
    rw [hplace]
    exact (eq_of_enter_singleton h).symm

end Reaches

/-! ## Reading -/

theorem exists_of_stat {node : Node} (h : t.stat path = .ok (place, node)) :
    ∃ target, t.locate path = .ok target ∧ target.place = place ∧ t.get? place = some node ∧
      (node ≠ .directory → target.isDirectory = false) := by
  unfold stat at h
  cases hlocate : t.locate path with
  | error e =>
    rw [hlocate] at h
    cases h
  | ok target =>
    rw [hlocate] at h
    dsimp only [bind, Except.bind] at h
    rcases hnode : t.get? target.place with _ | _ | bytes
    · rw [hnode] at h
      cases h
    · rw [hnode] at h
      cases h
      exact ⟨target, rfl, rfl, hnode, fun hne => absurd rfl hne⟩
    · rw [hnode] at h
      dsimp only at h
      split at h
      · cases h
      · rename_i hfalse
        cases h
        exact ⟨target, rfl, rfl, hnode, fun _ => by simpa using hfalse⟩

theorem exists_of_read {path text : String} (h : t.read path = .ok text) :
    ∃ target bytes, t.locate path = .ok target ∧ t.get? target.place = some (.file bytes) := by
  unfold read readBytes at h
  cases hstat : t.stat path with
  | error e =>
    rw [hstat] at h
    cases h
  | ok found =>
    obtain ⟨place, node⟩ := found
    obtain ⟨target, hlocate, rfl, hnode, -⟩ := exists_of_stat hstat
    rw [hstat] at h
    cases node with
    | directory => cases h
    | file bytes => exact ⟨target, bytes, hlocate, hnode⟩

theorem read_join {directory name : String} (h : t.Reaches directory place) (hname : Plain name) :
    t.read (join directory name) = (do
      checkEntry directory name
      match t.get? (place ++ [name]) with
      | none => .error .notFound
      | some .directory => .error .isADirectory
      | some (.file bytes) =>
        match textOf? bytes with
        | some text => .ok text
        | none => .error .invalidData) := by
  unfold read
  rw [readBytes_join h hname]
  cases checkEntry directory name with
  | error e => rfl
  | ok _ =>
    dsimp only [bind, Except.bind]
    rcases t.get? (place ++ [name]) with _ | _ | bytes <;> rfl

/-- A path that leads to a directory cannot be read. -/
theorem Reaches.not_read {path text : String} (hwf : t.WellFormed) (h : t.Reaches path place) :
    t.read path ≠ .ok text := by
  intro hread
  obtain ⟨target, bytes, hlocate, hnode⟩ := exists_of_read hread
  rw [h.eq_of_locate hlocate, h.get?_eq hwf] at hnode
  cases hnode

end Tree

namespace Discovery
variable {t : Tree} {root path : String} {paths : List String}

theorem exists_of_isSpecName {name : String} (h : isSpecName name = true) :
    ∃ base, name = base ++ specSuffix := by
  unfold isSpecName at h
  rw [Bool.and_eq_true, List.isSuffixOf_iff_suffix] at h
  obtain ⟨cs, hcs⟩ := h.2
  refine ⟨String.ofList cs, String.toList_inj.mp ?_⟩
  rw [String.toList_append, String.toList_ofList, hcs]

/-- Specs that are found in the order of their paths. -/
theorem specPaths_of_sorted {start : Place} {node : Node} (hstat : t.stat root = .ok (start, node))
    (hfound : (t.nodes.filterMap fun n => specPath? root start n.1 n.2) = paths)
    (hsorted : paths.Pairwise fun a b => Path.le a b) : specPaths t root = .ok paths := by
  unfold specPaths
  rw [hstat]
  exact congrArg Except.ok (hfound ▸ List.mergeSort_of_pairwise (hfound.symm ▸ hsorted))

theorem exists_of_specPath? {start place : Place} {node : Node}
    (h : specPath? root start place node = some path) :
    path = (place.drop start.length).foldl join root ∧ ∃ name,
      Path.fileName? path = some name ∧ isSpecName name = true := by
  unfold specPath? at h
  cases node with
  | directory => cases h
  | file bytes =>
    dsimp only at h
    split at h
    · rename_i hif
      cases h
      rw [Bool.and_eq_true] at hif
      refine ⟨rfl, ?_⟩
      cases hname : Path.fileName? ((place.drop start.length).foldl join root) with
      | none =>
        rw [hname] at hif
        exact absurd hif.2 (by simp)
      | some name =>
        rw [hname] at hif
        exact ⟨name, rfl, hif.2⟩
    · cases h

theorem exists_of_mem_specPaths (hpaths : specPaths t root = .ok paths) (hpath : path ∈ paths) :
    ∃ start, ∃ n ∈ t.nodes, specPath? root start n.1 n.2 = some path := by
  unfold specPaths at hpaths
  cases hstat : t.stat root with
  | error e =>
    rw [hstat] at hpaths
    cases hpaths
  | ok found =>
    rw [hstat] at hpaths
    cases hpaths
    rw [List.mem_mergeSort, List.mem_filterMap] at hpath
    exact ⟨found.1, hpath⟩

/-- A spec is the root itself, or an entry of a directory below it. -/
theorem spec_cases (hwf : t.WellFormed) (hpaths : specPaths t root = .ok paths)
    (hpath : path ∈ paths) :
    path = root ∨ ∃ (front : List String) (base : String), (∀ name ∈ front, Plain name) ∧
      Plain (base ++ specSuffix) ∧ path = join (front.foldl join root) (base ++ specSuffix) := by
  obtain ⟨start, n, hn, hfound⟩ := exists_of_mem_specPaths hpaths hpath
  obtain ⟨hpath, name, hname, hspec⟩ := exists_of_specPath? hfound
  have hplain : ∀ name ∈ n.1.drop start.length, Plain name := fun name hmem =>
    hwf.plain n hn name (List.mem_of_mem_drop hmem)
  rcases List.eq_nil_or_concat (n.1.drop start.length) with hnil | ⟨front, last, hlast⟩
  · rw [hnil] at hpath
    exact .inl hpath
  · rw [List.concat_eq_append] at hlast
    rw [hlast] at hpath hplain
    rw [List.foldl_append] at hpath
    change path = join (front.foldl join root) last at hpath
    have hplain' := hplain last (by simp)
    rw [hpath, Path.fileName?_join hplain'] at hname
    cases hname
    obtain ⟨base, rfl⟩ := exists_of_isSpecName hspec
    exact .inr ⟨front, base, fun name hmem => hplain name (by simp [hmem]), hplain', hpath⟩

end Discovery

namespace Site

/-- The place of the spec file. -/
def spec (s : Site) : Place := s.place ++ [s.name ++ specSuffix]

/-- The site of a spec that is found at a path below a root. -/
structure Found (s : Site) (t : Tree) (root : String) (front : List String) (path : String) :
    Prop where
  plain : Plain (s.name ++ specSuffix)
  path_eq : path = join (front.foldl join root) (s.name ++ specSuffix)
  reaches : t.Reaches (front.foldl join root) s.place
  below : ∃ start, t.Reaches root start ∧ s.place = start ++ front
  directory_eq : s.directory = (Path.parent? path).getD ""
  name_eq : s.name = specName path
  stands : s.Stands t

section
variable {s s' : Site} {t t' : Tree} {root path path' : String} {front front' : List String}

theorem stands_of_wellFormed (hwf : t.WellFormed) (h : t.Reaches s.directory s.place) :
    s.Stands t where
  reaches := h
  housed backend _ place hplace hnode := by
    obtain ⟨ending, -, rfl⟩ := mem_artifacts.mp hplace
    have houtput := hwf.housed (s.output backend) _ hnode
    refine ⟨hwf.housed s.generated backend ?_, houtput⟩
    rw [← output, houtput]
    exact Option.some_ne_none _

/-- A spec that is found below a root and can be read has a site. -/
theorem exists_found {base text : String} (hwf : t.WellFormed)
    (hfront : ∀ name ∈ front, Plain name) (hbase : Plain (base ++ specSuffix))
    (hpath : path = join (front.foldl join root) (base ++ specSuffix))
    (hread : t.read path = .ok text) : ∃ s : Site, s.Found t root front path := by
  obtain ⟨target, bytes, hlocate, hnode⟩ := Tree.exists_of_read hread
  rw [hpath] at hlocate
  obtain ⟨place, hreach, -, -⟩ := Tree.exists_reaches hbase hlocate
  obtain ⟨parent, hparent, hway⟩ := Path.parent?_join hbase (front.foldl join root)
  have hslash : '/' ∉ base.toList := fun hmem =>
    hbase.noSlash (by rw [String.toList_append]; exact List.mem_append_left _ hmem)
  refine ⟨⟨parent, place, base, hslash⟩, hbase, hpath, hreach, hreach.of_foldl hfront, ?_, ?_, ?_⟩
  · rw [hpath, hparent, Option.getD_some]
  · rw [hpath, specName_join hbase]
  · exact stands_of_wellFormed hwf (hreach.of_way hway)

/-- Specs at different paths have different sites. -/
theorem Found.ne (h : s.Found t root front path) (h' : s'.Found t root front' path')
    (hne : path ≠ path') : s.place ≠ s'.place ∨ s.name ≠ s'.name := by
  by_cases hplace : s.place = s'.place
  · refine .inr fun hname => hne ?_
    obtain ⟨start, hstart, hfront⟩ := h.below
    obtain ⟨start', hstart', hfront'⟩ := h'.below
    cases hstart.unique hstart'
    rw [hfront, hfront'] at hplace
    cases List.append_cancel_left hplace
    rw [h.path_eq, h'.path_eq, hname]
  · exact .inl hplace

/-! ## Replacing a spec file -/

theorem append_specSuffix_ne {base name : String}
    (h : name ∈ [".gitignore", generatedName, "cnode", "nif", Event.configFile]) :
    base ++ specSuffix ≠ name := by
  intro heq
  have hlist := congrArg (fun s : String => s.toList.reverse) heq
  simp only [generatedName, Event.configFile, specSuffix, List.mem_cons, List.not_mem_nil,
    or_false] at h hlist
  rcases h with rfl | rfl | rfl | rfl | rfl <;> simp at hlist

theorem append_specSuffix_ne_ending {base name ending : String} (h : ending ∈ endings) :
    base ++ specSuffix ≠ name ++ ending := by
  intro heq
  have hlist := congrArg (fun s : String => s.toList.reverse) heq
  simp only [endings, specSuffix, List.mem_cons, List.not_mem_nil, or_false] at h hlist
  rcases h with rfl | rfl | rfl | rfl <;> simp at hlist

theorem spec_notMem_own : s'.spec ∉ s.own := by
  intro h
  obtain ⟨backend, -, hplace⟩ := mem_own.mp h
  obtain ⟨ending, hending, heq⟩ := mem_artifacts.mp hplace
  obtain ⟨-, hname⟩ := List.append_inj' heq rfl
  exact append_specSuffix_ne_ending hending (List.singleton_inj.mp hname).symm

theorem spec_notMem_directories : s'.spec ∉ s.directories := by
  intro h
  obtain ⟨front, other, heq, hother⟩ := exists_of_mem_directories h
  obtain ⟨-, hname⟩ := List.append_inj' heq rfl
  refine append_specSuffix_ne ?_ (List.singleton_inj.mp hname)
  exact List.mem_cons_of_mem _ (List.mem_append_left [Event.configFile] hother)

/-- No spec notices that a spec file has other contents. -/
theorem Stands.agree_spec (h : s.Stands t) (hkeeps : t.Keeps [s'.spec] [] t') : s.Agree t' t := by
  refine (Agree.refl h).keeps hkeeps (fun place hplace => ⟨?_, List.not_mem_nil⟩)
    (fun place hplace => ?_) List.not_mem_nil
  · rintro hmem
    exact spec_notMem_own (List.mem_singleton.mp hmem ▸ hplace)
  · rintro hmem
    exact spec_notMem_directories (List.mem_singleton.mp hmem ▸ hplace)

section
variable (h : s.Found t root front path)
include h

theorem Found.keeps (hkeeps : t.Keeps [s'.spec] [] t') : s.Found t' root front path where
  plain := h.plain
  path_eq := h.path_eq
  reaches := h.reaches.keeps hkeeps
  below := h.below.imp fun _ hstart => ⟨hstart.1.keeps hkeeps, hstart.2⟩
  directory_eq := h.directory_eq
  name_eq := h.name_eq
  stands := (h.stands.agree_spec hkeeps).left

theorem Found.read_eq : t.read path = (do
    Tree.checkEntry (front.foldl join root) (s.name ++ specSuffix)
    match t.get? s.spec with
    | none => .error .notFound
    | some .directory => .error .isADirectory
    | some (.file bytes) =>
      match Tree.textOf? bytes with
      | some text => .ok text
      | none => .error .invalidData) := by
  rw [h.path_eq, Tree.read_join h.reaches h.plain]
  rfl

theorem Found.file {text : String} (hread : t.read path = .ok text) :
    Tree.checkEntry (front.foldl join root) (s.name ++ specSuffix) = .ok () ∧
      ∃ bytes, t.get? s.spec = some (.file bytes) := by
  rw [h.read_eq] at hread
  cases hentry : Tree.checkEntry (front.foldl join root) (s.name ++ specSuffix) with
  | error e =>
    rw [hentry] at hread
    cases hread
  | ok _ =>
    rw [hentry] at hread
    refine ⟨rfl, ?_⟩
    rcases hnode : t.get? s.spec with _ | _ | bytes
    · rw [hnode] at hread
      cases hread
    · rw [hnode] at hread
      cases hread
    · exact ⟨bytes, rfl⟩

theorem Found.write {text : String} (hread : t.read path = .ok text) (bytes : List UInt8) :
    t.write path bytes = .ok (t.put s.spec (.file bytes)) := by
  obtain ⟨hentry, bytes', hnode⟩ := h.file hread
  rw [h.path_eq, Tree.write_join h.reaches h.plain, hentry, ← spec, hnode]
  rfl

theorem Found.put {text : String} (hread : t.read path = .ok text) (bytes : List UInt8) :
    t.Keeps [s.spec] [] (t.put s.spec (.file bytes)) := by
  obtain ⟨-, bytes', hnode⟩ := h.file hread
  exact .put_file (by simp [spec]) (by rw [hnode]; exact nofun) bytes

theorem Found.read_put {text : String} (hread : t.read path = .ok text) (bytes : List UInt8) :
    (t.put s.spec (.file bytes)).read path = match Tree.textOf? bytes with
      | some text => .ok text
      | none => .error .invalidData := by
  rw [(h.keeps (h.put hread bytes)).read_eq, (h.file hread).1,
    Tree.get?_put (by simp [spec]), if_pos rfl]
  rfl

/-- Another spec reads as before. -/
theorem Found.read_put_other (hne : s.place ≠ s'.place ∨ s.name ≠ s'.name)
    (hkeeps : t.Keeps [s'.spec] [] t') : t'.read path = t.read path := by
  have hspec : s.spec ∉ [s'.spec] := by
    intro hmem
    obtain ⟨hplace, hname⟩ := List.append_inj' (List.mem_singleton.mp hmem) rfl
    have hname : s.name = s'.name := (String.append_left_inj _).mp (List.singleton_inj.mp hname)
    exact hne.elim (absurd hplace) (absurd hname)
  rw [(h.keeps hkeeps).read_eq, h.read_eq, hkeeps.get?_eq hspec List.not_mem_nil]

end

end

end Site

namespace Tree
variable {t t' : Tree} {root path : String} {place : Place}

theorem locate_of_stays {target : Target}
    (h : ∀ place, t.get? place = some .directory → t'.get? place = some .directory)
    (htarget : t.locate path = .ok target) : t'.locate path = .ok target := by
  unfold locate at *
  cases hcheck : checkPath path with
  | error e =>
    rw [hcheck] at htarget
    cases htarget
  | ok _ =>
    rw [hcheck] at htarget
    dsimp only [bind, Except.bind] at htarget ⊢
    cases hsegments : (segments path).reverse with
    | nil =>
      rw [hsegments] at htarget
      exact htarget
    | cons last front =>
      rw [hsegments] at htarget
      dsimp only at htarget ⊢
      cases henter : t.enter [] front.reverse with
      | error e =>
        rw [henter] at htarget
        cases htarget
      | ok q =>
        rw [henter] at htarget
        rw [enter_of_stays h henter]
        exact htarget

theorem filterMap_putNode {α : Type} {f : Place × Node → Option α} {node node' : Node}
    {ns : List (Place × Node)} (h : ns.lookup place = some node)
    (hf : f (place, node') = f (place, node)) :
    (putNode place node' ns).filterMap f = ns.filterMap f := by
  induction ns with
  | nil => cases h
  | cons n ns ih =>
    obtain ⟨p, old⟩ := n
    rw [lookup_cons_ite] at h
    rw [putNode]
    split
    · rename_i hp
      cases hp
      rw [if_pos rfl] at h
      cases h
      rw [List.filterMap_cons, List.filterMap_cons, hf]
    · rename_i hp
      rw [if_neg (fun hplace => hp hplace.symm)] at h
      rw [List.filterMap_cons, List.filterMap_cons, ih h]

theorem Reaches.stat_eq {start : Place} {target : Target} (hwf : t.WellFormed)
    (h : t.Reaches root start) (htarget : t.locate root = .ok target) :
    t.stat root = .ok (start, .directory) := by
  unfold stat
  rw [htarget]
  dsimp only [bind, Except.bind]
  rw [h.eq_of_locate htarget, h.get?_eq hwf]

/-- What is found does not depend on the contents of a file. -/
theorem specPaths_put {start : Place} {paths : List String} {bytes bytes' : List UInt8}
    (hwf : t.WellFormed) (hroot : t.Reaches root start) (hplace : place ≠ [])
    (hnode : t.get? place = some (.file bytes)) (hpaths : Discovery.specPaths t root = .ok paths) :
    Discovery.specPaths (t.put place (.file bytes')) root = .ok paths := by
  have hkeeps : t.Keeps [place] [] (t.put place (.file bytes')) :=
    .put_file hplace (by rw [hnode]; exact nofun) bytes'
  have hstat : (t.put place (.file bytes')).stat root = t.stat root := by
    cases htarget : t.locate root with
    | error e =>
      unfold Discovery.specPaths stat at hpaths
      rw [htarget] at hpaths
      cases hpaths
    | ok target =>
      rw [hroot.stat_eq hwf htarget]
      unfold stat
      rw [locate_of_stays hkeeps.stays htarget]
      dsimp only [bind, Except.bind]
      rw [hroot.eq_of_locate htarget, hkeeps.stays _ (hroot.get?_eq hwf)]
  rw [← hpaths]
  unfold Discovery.specPaths
  rw [hstat]
  cases t.stat root with
  | error e => rfl
  | ok found =>
    rw [get?_of_ne_nil hplace] at hnode
    exact congrArg Except.ok (congrArg (List.mergeSort · Path.le) (filterMap_putNode hnode rfl))

end Tree

namespace Run
variable {w u : World} {root path : String} {paths : List String}

/-! ## The runs before the first spec -/

/-- The spec at a path. -/
def specAt (t : Tree) (path : String) : SpecFile :=
  ⟨specName path, (Path.parent? path).getD "", path, (t.read path).toOption.getD ""⟩

theorem directory_specAt (t : Tree) (path : String) :
    (specAt t path).directory = (Path.parent? path).getD "" := by
  rw [specAt]

theorem name_specAt (t : Tree) (path : String) : (specAt t path).name = specName path := by
  rw [specAt]

theorem run_readFile (path : String) (w : World) :
    (readFile path).run.run w = ((w.tree.read path).mapError (.access path), w) := by
  have hget : (get : Run World).outcome w = .ok w := rfl
  rw [readFile, run_bind, hget]
  dsimp only
  cases w.tree.read path <;> rfl

theorem outcome_readFile (path : String) (w : World) :
    (readFile path).outcome w = (w.tree.read path).mapError (.access path) := by
  rw [outcome, run_readFile]

theorem after_readFile (path : String) (w : World) : (readFile path).after w = w := by
  rw [after, run_readFile]

theorem run_readSpec {text : String} (h : w.tree.read path = .ok text) :
    (readSpec path).outcome w = .ok (specAt w.tree path) ∧ (readSpec path).after w = w := by
  have hread : (readFile path).outcome w = .ok text := by
    rw [outcome_readFile, h]
    rfl
  unfold readSpec specAt
  rw [outcome_bind_of_ok hread, after_bind_of_ok hread, after_readFile, h]
  exact ⟨rfl, rfl⟩

theorem run_mapM_readSpec (h : ∀ path ∈ paths, ∃ text, w.tree.read path = .ok text) :
    (paths.mapM readSpec).outcome w = .ok (paths.map (specAt w.tree)) ∧
      (paths.mapM readSpec).after w = w := by
  induction paths with
  | nil => exact ⟨rfl, rfl⟩
  | cons path paths ih =>
    obtain ⟨text, htext⟩ := h path List.mem_cons_self
    obtain ⟨hspec, hafter⟩ := run_readSpec htext
    obtain ⟨hrest, hafter'⟩ := ih fun path hpath => h path (List.mem_cons_of_mem _ hpath)
    rw [List.mapM_cons, outcome_bind_of_ok hspec, after_bind_of_ok hspec, hafter,
      outcome_bind_of_ok hrest, after_bind_of_ok hrest, hafter']
    exact ⟨rfl, rfl⟩

theorem exists_text_of_readSpec {spec : SpecFile} (h : (readSpec path).outcome w = .ok spec) :
    ∃ text, w.tree.read path = .ok text := by
  obtain ⟨text, htext, -⟩ := exists_of_outcome_bind h
  rw [outcome_readFile] at htext
  cases hread : w.tree.read path with
  | error e =>
    rw [hread] at htext
    cases htext
  | ok text => exact ⟨text, rfl⟩

theorem exists_text_of_mapM_readSpec {specs : List SpecFile}
    (h : (paths.mapM readSpec).outcome w = .ok specs) :
    ∀ path ∈ paths, ∃ text, w.tree.read path = .ok text := by
  induction paths generalizing specs with
  | nil => exact nofun
  | cons path paths ih =>
    rw [List.mapM_cons] at h
    obtain ⟨spec, hspec, h⟩ := exists_of_outcome_bind h
    obtain ⟨text, htext⟩ := exists_text_of_readSpec hspec
    rw [(run_readSpec htext).2] at h
    obtain ⟨rest, hrest, -⟩ := exists_of_outcome_bind h
    intro p hp
    rcases List.mem_cons.mp hp with rfl | hp
    · exact ⟨text, htext⟩
    · exact ih hrest p hp

/-- A spec that cannot be read ends the run. -/
theorem outcome_mapM_readSpec_of_error {e : FileError} (hpath : path ∈ paths)
    (he : w.tree.read path = .error e)
    (h : ∀ p ∈ paths, p ≠ path → ∃ text, w.tree.read p = .ok text) :
    (paths.mapM readSpec).outcome w = .error (.access path e) := by
  induction paths with
  | nil => cases hpath
  | cons p paths ih =>
    rw [List.mapM_cons]
    by_cases hp : p = path
    · have hread : (readFile path).outcome w = .error (.access path e) := by
        rw [outcome_readFile, he]
        rfl
      have hspec : (readSpec path).outcome w = .error (.access path e) :=
        outcome_bind_of_error hread
      rw [hp, outcome_bind_of_error hspec]
    · obtain ⟨text, htext⟩ := h p List.mem_cons_self hp
      obtain ⟨hspec, hafter⟩ := run_readSpec htext
      have hrest := ih ((List.mem_cons.mp hpath).resolve_left (Ne.symm hp))
        fun q hq => h q (List.mem_cons_of_mem _ hq)
      rw [outcome_bind_of_ok hspec, hafter, outcome_bind_of_error hrest]

/-- Once the paths are known, they are read. -/
theorem exists_of_discover (hpaths : Discovery.specPaths w.tree root = .ok paths) :
    ∃ v : World, v.tree = w.tree ∧ (discover root).outcome w = (paths.mapM readSpec).outcome v ∧
      (discover root).after w = (paths.mapM readSpec).after v := by
  have hget : (get : Run World).outcome w = .ok w := rfl
  refine ⟨(report [.specsFound paths.length root]).after w, rfl, ?_⟩
  unfold discover
  rw [outcome_bind_of_ok hget, after_bind_of_ok hget, hpaths]
  exact ⟨rfl, rfl⟩

theorem run_discover (hpaths : Discovery.specPaths w.tree root = .ok paths)
    (h : ∀ path ∈ paths, ∃ text, w.tree.read path = .ok text) :
    (discover root).outcome w = .ok (paths.map (specAt w.tree)) ∧
      ((discover root).after w).tree = w.tree := by
  obtain ⟨v, hv, houtcome, hafter⟩ := exists_of_discover hpaths
  rw [← hv] at h
  obtain ⟨hspecs, hworld⟩ := run_mapM_readSpec h
  rw [houtcome, hspecs, hafter, hworld, hv]
  exact ⟨rfl, rfl⟩

theorem outcome_discover_of_error {e : FileError}
    (hpaths : Discovery.specPaths w.tree root = .ok paths) (hpath : path ∈ paths)
    (he : w.tree.read path = .error e)
    (h : ∀ p ∈ paths, p ≠ path → ∃ text, w.tree.read p = .ok text) :
    (discover root).outcome w = .error (.access path e) := by
  obtain ⟨v, hv, houtcome, -⟩ := exists_of_discover hpaths
  rw [← hv] at he h
  rw [houtcome, outcome_mapM_readSpec_of_error hpath he h]

theorem exists_text_of_discover {specs : List SpecFile}
    (hpaths : Discovery.specPaths w.tree root = .ok paths)
    (h : (discover root).outcome w = .ok specs) :
    ∀ path ∈ paths, ∃ text, w.tree.read path = .ok text := by
  obtain ⟨v, hv, houtcome, -⟩ := exists_of_discover hpaths
  rw [← hv]
  exact exists_text_of_mapM_readSpec (houtcome.symm.trans h)

/-- The configuration is a matter of one file, and reading it changes no tree. -/
theorem run_loadConfig {path : String} (hpath : path = join root Event.configFile) (w : World) :
    (loadConfig root).outcome w =
      (if w.tree.isFile path then do
        match ProjectConfig.read? (← (w.tree.read path).mapError (Failure.access path)) with
        | none => .error (.config path)
        | some config => .ok config
      else .ok {}) ∧ ((loadConfig root).after w).tree = w.tree := by
  have hget : (get : Run World).outcome w = .ok w := rfl
  unfold loadConfig
  rw [← hpath]
  dsimp only
  rw [outcome_bind_of_ok hget, after_bind_of_ok hget]
  split
  · have hread := outcome_readFile path w
    cases htext : w.tree.read path with
    | error e =>
      rw [htext] at hread
      exact ⟨outcome_bind_of_error hread, congrArg World.tree
        ((after_bind_of_error hread).trans (after_readFile path w))⟩
    | ok text =>
      rw [htext] at hread
      have hafter : (get : Run World).after w = w := rfl
      rw [hafter, outcome_bind_of_ok hread, after_bind_of_ok hread, after_readFile]
      dsimp only [Except.mapError, bind, Except.bind]
      cases ProjectConfig.read? text <;> exact ⟨rfl, rfl⟩
  · exact ⟨rfl, rfl⟩

end Run

end NativeInterface
