import NativeInterface.Proofs.Rediscovery

/-!
# Directories on the way

Making a directory with its parents changes nothing but that directories stand where nothing stood,
and that ancestors of the path lead to them (`Opens.of_makeDirectories`). In a path without steps
upwards such directories come before all that is written below the path, so what a path holds can be
compared from one tree to a later one by place (`node?_cases`).
-/

namespace NativeInterface
open NativeInterface.Path (Plain join)

/-! ## Paths below a directory -/

namespace Path
open NativeInterface.Tree (segments)

theorem head?_append_of_noSlash {ending : String} (h : '/' ∉ ending.toList) (name : String) :
    (name ++ ending).toList.head? = some '/' ↔ name.toList.head? = some '/' := by
  rw [String.toList_append]
  rcases name.toList with _ | ⟨c, cs⟩
  · exact iff_of_false (fun hhead => h (List.mem_of_mem_head? hhead)) nofun
  · rfl

theorem join_append_of_noSlash {ending : String} (h : '/' ∉ ending.toList)
    (directory name : String) :
    join directory (name ++ ending) = join directory name ++ ending := by
  unfold join
  simp only [head?_append_of_noSlash h]
  split
  · rfl
  · split <;> simp only [String.append_assoc]

/-- Paths that differ in their endings only are entries of one directory. -/
theorem exists_stem (directory name : String) : ∃ front stem, '/' ∉ stem.toList ∧
    ∀ ending : String, '/' ∉ ending.toList →
      join directory (name ++ ending) = join front (stem ++ ending) := by
  obtain ⟨front, stem, hfront, hpath, hslash⟩ := exists_isFront (join directory name)
  refine ⟨String.ofList front, stem, hslash, fun ending hending => ?_⟩
  rw [join_append_of_noSlash hending]
  refine eq_join_of_front hfront ?_ ?_
  · rw [String.toList_append, String.toList_append, hpath, List.append_assoc]
  · rw [String.toList_append, List.mem_append, not_or]
    exact ⟨hslash, hending⟩

theorem segments_join_of_relative {path : String} (h : path.toList.head? ≠ some '/')
    (directory : String) :
    segments (join directory path) = segments directory ++ segments path := by
  unfold join
  rw [if_neg h, segments_eq, segments_eq, segments_eq]
  split
  · rename_i hend
    rw [Bool.or_eq_true, String.isEmpty_iff, decide_eq_true_eq] at hend
    rw [String.toList_append]
    refine names_front (hend.imp (fun hempty => ?_) List.getLast?_eq_some_iff.mp) _
    rw [hempty]
    rfl
  · rw [String.toList_append, String.toList_append, List.append_assoc]
    exact names_append _ _

/-- Up to its last name a relative path goes through the directory. -/
theorem segments_prefix_of_relative {directory front path name : String}
    (h : path.toList.head? ≠ some '/') (hpath : segments path ≠ []) (hname : Plain name)
    (heq : join directory path = join front name) : segments directory <+: segments front := by
  have hsegments := congrArg segments heq
  rw [segments_join_of_relative h, segments_join hname] at hsegments
  rw [← List.dropLast_concat_getLast hpath, ← List.append_assoc] at hsegments
  exact ⟨_, (List.append_inj' hsegments rfl).1⟩

/-- A parent goes a part of the way. -/
theorem way_parent? {path parent : String} (h : parent? path = some parent) :
    way parent.toList <+: way path.toList := by
  unfold parent? at h
  dsimp only at h
  split at h
  · cases h
  cases h
  obtain ⟨back, hback⟩ : ∃ back, trimEnd path.toList.reverse = back := ⟨_, rfl⟩
  have hfront : IsFront (back.dropWhile (· ≠ '/')).reverse := by
    rcases hdrop : back.dropWhile (· ≠ '/') with _ | ⟨c, cs⟩
    · exact .inl rfl
    · have hc := List.head?_dropWhile_not (· ≠ '/') back
      rw [hdrop] at hc
      have hc : c = '/' := by simpa using hc
      exact .inr ⟨cs.reverse, by rw [hc, List.reverse_cons]⟩
  have hway : way path.toList = way back.reverse := by
    rw [← hback, way_trimEnd, List.reverse_reverse]
  have hsplit : back.reverse =
      (back.dropWhile (· ≠ '/')).reverse ++ (back.takeWhile (· ≠ '/')).reverse := by
    rw [← List.reverse_append, List.takeWhile_append_dropWhile]
  rw [hback, String.toList_ofList, way_trimEnd, hway, hsplit, way, way, names_front hfront,
    List.filter_append]
  exact List.prefix_append _ _

theorem way_of_mem_ancestors {path p : String} (h : p ∈ ancestors path) :
    way p.toList <+: way path.toList := by
  fun_induction ancestors path with
  | case1 => cases h
  | case2 path hne ih =>
    rcases List.mem_cons.mp h with rfl | h
    · exact List.prefix_rfl
    split at h
    · rename_i q hparent
      split at h
      · exact (ih q ‹_› h).trans (way_parent? hparent)
      · cases h
    · cases h

end Path

/-! ## Directories that are made -/

namespace Tree
variable {t t' t'' : Tree} {paths rest : List String} {path : String} {place : Place}

/-- A directory stands where nothing stood before, and one of some paths leads to it. -/
def Opened (paths : List String) (t t' : Tree) (place : Place) : Prop :=
  t.get? place = none ∧ ∃ path ∈ paths, t'.stat path = .ok (place, .directory)

theorem Opened.get?_eq (h : Opened paths t t' place) : t'.get? place = some .directory := by
  obtain ⟨-, path, -, hstat⟩ := h
  obtain ⟨-, -, -, hnode, -⟩ := exists_of_stat hstat
  exact hnode

theorem Opened.of_stays (h : Opened paths t t' place)
    (hstays : ∀ q, t'.get? q = some .directory → t''.get? q = some .directory) :
    Opened paths t t'' place := by
  have hnode := h.get?_eq
  obtain ⟨hnone, path, hpath, hstat⟩ := h
  exact ⟨hnone, path, hpath, stat_of_stays hstays hstat (by rw [hnode, hstays _ hnode])⟩

/-- A later tree differs in directories to which some paths lead. -/
def Opens (paths : List String) (t t' : Tree) : Prop :=
  ∀ place, t'.get? place = t.get? place ∨ Opened paths t t' place

namespace Opens

theorem refl (t : Tree) : t.Opens paths t := fun _ => .inl rfl

theorem stays (h : t.Opens paths t') :
    ∀ place, t.get? place = some .directory → t'.get? place = some .directory := by
  intro place hnode
  rcases h place with heq | ⟨hnone, -⟩
  · rw [heq, hnode]
  · rw [hnone] at hnode
    cases hnode

theorem trans (h : t.Opens paths t') (h' : t'.Opens paths t'') : t.Opens paths t'' := by
  intro place
  rcases h place with heq | hopened
  · unfold Opened
    rw [← heq]
    exact h' place
  · exact .inr (hopened.of_stays h'.stays)

theorem of_makeDirectory (hpath : path ∈ paths) (h : t.makeDirectory path = .ok t') :
    t.Opens paths t' := by
  unfold makeDirectory at h
  cases hlocate : t.locate path with
  | error e =>
    rw [hlocate] at h
    cases h
  | ok target =>
    rw [hlocate] at h
    dsimp only [bind, Except.bind] at h
    split at h
    · cases h
    rename_i hnone
    cases h
    have hne : target.place ≠ [] := by
      intro hnil
      rw [hnil, get?_nil] at hnone
      cases hnone
    intro place
    rw [get?_put hne]
    by_cases hplace : place = target.place
    · refine .inr ⟨hplace ▸ hnone, path, hpath, ?_⟩
      have hstays : ∀ q, t.get? q = some .directory →
          (t.put target.place .directory).get? q = some .directory := by
        intro q hq
        rw [get?_put hne]
        split
        · rfl
        · exact hq
      rw [stat, locate_of_stays hstays hlocate]
      dsimp only [bind, Except.bind]
      rw [get?_put hne, if_pos rfl, hplace]
    · exact .inl (if_neg hplace)

theorem of_makeAll (h : rest ⊆ paths) : t.Opens paths (t.makeAll rest).tree := by
  fun_induction makeAll t rest with
  | case1 t => exact refl t
  | case2 t path rest t' hmade ih =>
    exact (of_makeDirectory (h List.mem_cons_self) hmade).trans
      (ih (List.subset_of_cons_subset h))
  | case3 t path rest e _ _ ih => exact ih (List.subset_of_cons_subset h)
  | case4 t => exact refl t

theorem of_makeFrom {below : List String} (hbelow : below ⊆ paths) (h : rest ⊆ paths) :
    t.Opens paths (t.makeFrom below rest).tree := by
  fun_induction makeFrom t below rest with
  | case1 below => exact of_makeAll hbelow
  | case2 below path parents t' hmade =>
    exact (of_makeDirectory (h List.mem_cons_self) hmade).trans (of_makeAll hbelow)
  | case3 below path parents _ ih =>
    exact ih (List.cons_subset.mpr ⟨h List.mem_cons_self, hbelow⟩) (List.subset_of_cons_subset h)
  | case4 below => exact of_makeAll hbelow
  | case5 => exact refl t

theorem of_makeDirectories (t : Tree) (path : String) :
    t.Opens (Path.ancestors path) (t.makeDirectories path).tree :=
  of_makeFrom (List.nil_subset _) (List.Subset.refl _)

end Opens

/-! ## What a path holds -/

/-- What a path leads to. -/
def node? (t : Tree) (path : String) : Option Node :=
  (t.stat path).toOption.map Prod.snd

theorem node?_join {directory name : String} (h : t.Reaches directory place) (hname : Plain name)
    (hentry : checkEntry directory name = .ok ()) :
    t.node? (join directory name) = t.get? (place ++ [name]) := by
  rw [node?, stat_join h hname, hentry]
  dsimp only [bind, Except.bind]
  rcases t.get? (place ++ [name]) with _ | node <;> rfl

theorem node?_of_locate {e : FileError} (h : t.locate path = .error e) : t.node? path = none := by
  rw [node?, stat, h]
  rfl

/-- A file that is written stands where its path leads. -/
theorem exists_of_write {bytes : List UInt8} (h : t.write path bytes = .ok t') :
    ∃ place, t.Keeps [place] [] t' ∧ t'.stat path = .ok (place, .file bytes) := by
  unfold write at h
  cases hlocate : t.locate path with
  | error e =>
    rw [hlocate] at h
    cases h
  | ok target =>
    rw [hlocate] at h
    dsimp only [bind, Except.bind] at h
    have hput (hnode : t.get? target.place ≠ some .directory)
        (hfile : ¬ target.isDirectory = true) :
        ∃ place, t.Keeps [place] [] (t.put target.place (.file bytes)) ∧
          (t.put target.place (.file bytes)).stat path = .ok (place, .file bytes) := by
      have hne : target.place ≠ [] := fun hnil => hnode (hnil ▸ get?_nil t)
      have hkeeps := Keeps.put_file hne hnode bytes
      refine ⟨target.place, hkeeps, ?_⟩
      rw [stat, locate_of_stays hkeeps.stays hlocate]
      dsimp only [bind, Except.bind]
      rw [get?_put hne, if_pos rfl]
      exact if_neg hfile
    split at h
    · cases h
    all_goals
      rename_i hnode
      split at h
      · cases h
      · cases h
        exact hput (by rw [hnode]; exact fun h => by cases h) ‹_›

/-- Without steps upwards the names of a path are those of its place. -/
theorem eq_of_enter {names : List String} {place place' : Place} (hup : ".." ∉ names)
    (h : t.enter place names = .ok place') : place' = place ++ names.filter (· ≠ ".") := by
  fun_induction t.enter place names with
  | case1 place =>
    cases h
    simp
  | case2 place rest ih =>
    rw [ih (fun hmem => hup (List.mem_cons_of_mem _ hmem)) h, List.filter_cons_of_neg (by simp)]
  | case3 place rest => exact absurd List.mem_cons_self hup
  | case4 place name rest hhere hne ih =>
    cases hcheck : checkName name with
    | error e =>
      rw [hcheck] at h
      cases h
    | ok _ =>
      rw [hcheck] at h
      dsimp only [bind, Except.bind] at h
      split at h
      · rw [ih (fun hmem => hup (List.mem_cons_of_mem _ hmem)) h,
          List.filter_cons_of_pos (by simpa using hhere), List.append_assoc]
        rfl
      · cases h
      · cases h

theorem Reaches.eq_way (h : t.Reaches path place) (hup : ".." ∉ segments path) :
    place = Path.way path.toList := by
  rw [eq_of_enter hup h]
  rfl

/-- All that a node stands below is a directory. -/
theorem WellFormed.get?_of_append (hwf : t.WellFormed) {names : List String}
    (h : t.get? (place ++ names) = some .directory) : t.get? place = some .directory := by
  induction names generalizing place with
  | nil => simpa using h
  | cons name names ih =>
    have hnode : t.get? (place ++ [name]) = some .directory := ih (by simpa using h)
    exact hwf.housed _ name (by rw [hnode]; exact Option.some_ne_none _)

/-- A way that leads to a directory of a tree is a way through that tree. -/
theorem enter_of_wellFormed (hwf : t.WellFormed) {names : List String} {place place' : Place}
    (hup : ".." ∉ names) (hplace : t.get? place' = some .directory)
    (h : t'.enter place names = .ok place') : t.enter place names = .ok place' := by
  fun_induction t'.enter place names with
  | case1 place => exact h
  | case2 place rest ih =>
    rw [enter]
    exact ih (fun hmem => hup (List.mem_cons_of_mem _ hmem)) h
  | case3 place rest => exact absurd List.mem_cons_self hup
  | case4 place name rest hhere hne ih =>
    rw [enter.eq_4 _ _ _ _ hhere hne]
    cases hcheck : checkName name with
    | error e =>
      rw [hcheck] at h
      cases h
    | ok _ =>
      rw [hcheck] at h
      dsimp only [bind, Except.bind] at h ⊢
      split at h
      · have hrest : ".." ∉ rest := fun hmem => hup (List.mem_cons_of_mem _ hmem)
        have hnode : t.get? (place ++ [name]) = some .directory :=
          hwf.get?_of_append (eq_of_enter hrest h ▸ hplace)
        rw [hnode]
        exact ih hrest h
      · cases h
      · cases h

/-- In a tree and in a later one a path without steps upwards holds what stands at one and the same
place. -/
theorem node?_cases (hwf : t.WellFormed) {directory name : String} (hname : Plain name)
    (hup : ".." ∉ segments directory)
    (hstays : ∀ q, t.get? q = some .directory → t'.get? q = some .directory) :
    (t'.node? (join directory name) = none ∧ t.node? (join directory name) = none) ∨
      ∃ place, t'.locate (join directory name) = .ok ⟨place, false⟩ ∧
        t'.node? (join directory name) = t'.get? place ∧
        t.node? (join directory name) = t.get? place := by
  cases hlocate : t'.locate (join directory name) with
  | error e =>
    refine .inl ⟨node?_of_locate hlocate, ?_⟩
    cases hbefore : t.locate (join directory name) with
    | error e => exact node?_of_locate hbefore
    | ok target =>
      rw [locate_of_stays hstays hbefore] at hlocate
      cases hlocate
  | ok target =>
    obtain ⟨place, hreach, hentry, rfl⟩ := exists_reaches hname hlocate
    refine .inr ⟨_, rfl, node?_join hreach hname hentry, ?_⟩
    by_cases hplace : t.get? place = some .directory
    · exact node?_join (enter_of_wellFormed hwf hup hplace hreach) hname hentry
    -- The directory is new, so the path led nowhere and nothing stood at its place.
    · have hnone : t.get? (place ++ [name]) = none :=
        Classical.byContradiction fun hnode => hplace (hwf.housed _ _ hnode)
      rw [hnone]
      cases hbefore : t.locate (join directory name) with
      | error e => exact node?_of_locate hbefore
      | ok target =>
        obtain ⟨q, hq, -, -⟩ := exists_reaches hname hbefore
        cases (enter_of_stays hstays hq).symm.trans hreach
        exact absurd (hq.get?_eq hwf) hplace

end Tree

end NativeInterface
