import NativeInterface.Proofs.Paths

/-!
# Operations in a directory

What an operation on a joined path does is a matter of the place that its directory leads to
(`Reaches`) and of the nodes there. `Keeps` bounds what changes from one tree to a later one:
directories stay, and only some places get or lose files, or become directories.
-/

namespace NativeInterface

namespace Tree
open NativeInterface.Path (Plain join)
variable {place : Place}

/-! ## Nodes by place -/

theorem lookup_cons_ite (place q : Place) (node : Node) (ns : List (Place × Node)) :
    ((place, node) :: ns).lookup q = if q = place then some node else ns.lookup q := by
  rw [List.lookup_cons]
  by_cases h : q = place
  · rw [if_pos h, beq_iff_eq.mpr h]
  · rw [if_neg h, beq_false_of_ne h]

theorem lookup_putNode (place q : Place) (node : Node) (ns : List (Place × Node)) :
    (putNode place node ns).lookup q = if q = place then some node else ns.lookup q := by
  induction ns with
  | nil => exact lookup_cons_ite ..
  | cons n ns ih =>
    obtain ⟨p, old⟩ := n
    rw [putNode, lookup_cons_ite]
    split
    · rename_i h
      cases h
      rw [lookup_cons_ite]
      split <;> rfl
    · rename_i hp
      rw [lookup_cons_ite, ih]
      split
      · rename_i hq
        rw [if_neg (hq.symm ▸ hp)]
      · rfl

theorem lookup_filter_ne (place q : Place) (ns : List (Place × Node)) :
    (ns.filter (·.1 ≠ place)).lookup q = if q = place then none else ns.lookup q := by
  induction ns with
  | nil => simp
  | cons n ns ih =>
    obtain ⟨p, old⟩ := n
    rw [List.filter_cons, lookup_cons_ite]
    split
    · rename_i hp
      have hp : p ≠ place := of_decide_eq_true hp
      rw [lookup_cons_ite, ih]
      split
      · rename_i hq
        rw [if_neg (hq.symm ▸ hp)]
      · rfl
    · rename_i hp
      have hp : p = place := by simpa using hp
      rw [ih, hp]
      split <;> rfl

theorem get?_of_ne_nil (h : place ≠ []) (t : Tree) : t.get? place = t.nodes.lookup place :=
  if_neg (by simpa using h)

theorem get?_nil (t : Tree) : t.get? [] = some .directory := rfl

theorem get?_put (h : place ≠ []) (t : Tree) (node : Node) (q : Place) :
    (t.put place node).get? q = if q = place then some node else t.get? q := by
  by_cases hq : q = []
  · rw [hq, if_neg h.symm, get?_nil, get?_nil]
  · rw [get?_of_ne_nil hq, get?_of_ne_nil hq]
    exact lookup_putNode ..

theorem get?_erase (h : place ≠ []) (t : Tree) (q : Place) :
    (t.erase place).get? q = if q = place then none else t.get? q := by
  by_cases hq : q = []
  · rw [hq, if_neg h.symm, get?_nil, get?_nil]
  · rw [get?_of_ne_nil hq, get?_of_ne_nil hq]
    exact lookup_filter_ne ..

/-- Make a directory where nothing stands. -/
def ensure (t : Tree) (place : Place) : Tree :=
  if t.get? place = none then t.put place .directory else t

/-- A file stands at a place. -/
def hasFile (t : Tree) (place : Place) : Bool :=
  match t.get? place with
  | some (.file _) => true
  | _ => false

theorem hasFile_ensure (h : place ≠ []) (t : Tree) (q : Place) :
    (t.ensure place).hasFile q = t.hasFile q := by
  unfold ensure
  split
  · rename_i hnone
    rw [hasFile, hasFile, get?_put h]
    by_cases hq : q = place
    · rw [if_pos hq, hq, hnone]
    · rw [if_neg hq]
  · rfl

theorem get?_ensure (h : place ≠ []) {t : Tree} (hfile : t.hasFile place = false) :
    (t.ensure place).get? place = some .directory := by
  unfold ensure
  split
  · rw [get?_put h, if_pos rfl]
  · rename_i hnode
    unfold hasFile at hfile
    rcases ht : t.get? place with _ | _ | bytes
    · exact absurd ht hnode
    · rfl
    · rw [ht] at hfile
      cases hfile

/-! ## What stays -/

/-- What a later tree may differ in: directories stay directories, only `files` may get other
contents, and only `directories` may become directories. -/
structure Keeps (files directories : List Place) (t t' : Tree) : Prop where
  stays : ∀ place, t.get? place = some .directory → t'.get? place = some .directory
  file : ∀ place, place ∉ files → ∀ bytes,
    t'.get? place = some (.file bytes) ↔ t.get? place = some (.file bytes)
  directory : ∀ place, place ∉ directories →
    (t'.get? place = some .directory ↔ t.get? place = some .directory)

namespace Keeps
variable {files directories files' directories' : List Place} {t t' t'' : Tree} {place : Place}

theorem refl (t : Tree) : t.Keeps files directories t :=
  ⟨fun _ h => h, fun _ _ _ => .rfl, fun _ _ => .rfl⟩

theorem trans (h : t.Keeps files directories t') (h' : t'.Keeps files directories t'') :
    t.Keeps files directories t'' where
  stays place hplace := h'.stays place (h.stays place hplace)
  file place hplace bytes := (h'.file place hplace bytes).trans (h.file place hplace bytes)
  directory place hplace := (h'.directory place hplace).trans (h.directory place hplace)

theorem mono (h : t.Keeps files directories t') (hfiles : files ⊆ files')
    (hdirectories : directories ⊆ directories') : t.Keeps files' directories' t' where
  stays := h.stays
  file place hplace := h.file place fun hmem => hplace (hfiles hmem)
  directory place hplace := h.directory place fun hmem => hplace (hdirectories hmem)

/-- All else is as before. -/
theorem get?_eq (h : t.Keeps files directories t') (hfiles : place ∉ files)
    (hdirectories : place ∉ directories) : t'.get? place = t.get? place := by
  have hfile := h.file place hfiles
  have hdirectory := h.directory place hdirectories
  generalize t.get? place = node at *
  generalize t'.get? place = node' at *
  rcases node with _ | _ | bytes
  · rcases node' with _ | _ | bytes
    · rfl
    · cases hdirectory.mp rfl
    · cases (hfile bytes).mp rfl
  · exact hdirectory.mpr rfl
  · exact (hfile bytes).mpr rfl

theorem hasFile_eq (h : t.Keeps files directories t') (hfiles : place ∉ files) :
    t'.hasFile place = t.hasFile place := by
  have hfile := h.file place hfiles
  unfold hasFile
  generalize t.get? place = node at *
  generalize t'.get? place = node' at *
  rcases node with _ | _ | bytes
  · rcases node' with _ | _ | bytes
    · rfl
    · rfl
    · cases (hfile bytes).mp rfl
  · rcases node' with _ | _ | bytes
    · rfl
    · rfl
    · cases (hfile bytes).mp rfl
  · rw [(hfile bytes).mpr rfl]

/-- A change at one place where no directory stands, before or after. -/
theorem of_file (h : t.get? place ≠ some .directory) (h' : t'.get? place ≠ some .directory)
    (hrest : ∀ q, q ≠ place → t'.get? q = t.get? q) : t.Keeps [place] [] t' where
  stays q hq := by rw [hrest q (by rintro rfl; exact h hq), hq]
  file q hq bytes := by rw [hrest q (by simpa using hq)]
  directory q _ := by
    by_cases hplace : q = place
    · rw [hplace]
      exact iff_of_false h' h
    · rw [hrest q hplace]

theorem put_file (h : place ≠ []) (hnode : t.get? place ≠ some .directory) (bytes : List UInt8) :
    t.Keeps [place] [] (t.put place (.file bytes)) := by
  refine of_file hnode ?_ fun q hq => ?_
  · rw [get?_put h, if_pos rfl]
    exact nofun
  · rw [get?_put h, if_neg hq]

theorem erase (h : place ≠ []) (hnode : t.get? place ≠ some .directory) :
    t.Keeps [place] [] (t.erase place) := by
  refine of_file hnode ?_ fun q hq => ?_
  · rw [get?_erase h, if_pos rfl]
    exact nofun
  · rw [get?_erase h, if_neg hq]

theorem ensure (h : place ≠ []) (t : Tree) : t.Keeps [] [place] (t.ensure place) := by
  unfold Tree.ensure
  split
  · rename_i hnode
    refine ⟨fun q hq => ?_, fun q _ bytes => ?_, fun q hq => ?_⟩
    · rw [get?_put h]
      split
      · rfl
      · exact hq
    · rw [get?_put h]
      split
      · rename_i hplace
        rw [hplace, hnode]
        exact ⟨nofun, nofun⟩
      · rfl
    · rw [get?_put h, if_neg (by simpa using hq)]
  · exact refl t

end Keeps

/-! ## Following names -/

theorem enter_plain {name : String} (h : Plain name) (t : Tree) (place : Place)
    (rest : List String) : t.enter place (name :: rest) = (do
      checkName name
      match t.get? (place ++ [name]) with
      | some .directory => t.enter (place ++ [name]) rest
      | some (.file _) => .error .notADirectory
      | none => .error .notFound) :=
  enter.eq_4 t place name rest h.ne_here h.ne_up

theorem enter_append (t : Tree) (place : Place) (as bs : List String) :
    t.enter place (as ++ bs) = (do t.enter (← t.enter place as) bs) := by
  fun_induction t.enter place as with
  | case1 => rfl
  | case2 place rest ih => rw [List.cons_append, enter, ih]
  | case3 place rest ih => rw [List.cons_append, enter, ih]
  | case4 place name rest hhere hup ih =>
    rw [List.cons_append, enter.eq_4 _ _ _ _ hhere hup, bind_assoc]
    refine bind_congr fun _ => ?_
    split
    · exact ih
    · rfl
    · rfl

/-- Dots lead nowhere. -/
theorem enter_filter (t : Tree) (place : Place) (as : List String) :
    t.enter place (as.filter (· ≠ ".")) = t.enter place as := by
  fun_induction t.enter place as with
  | case1 => rfl
  | case2 place rest ih => rw [List.filter_cons_of_neg (by simp), ih]
  | case3 place rest ih => rw [List.filter_cons_of_pos (by decide), enter, ih]
  | case4 place name rest hhere hup ih =>
    rw [List.filter_cons_of_pos (by simpa using hhere), enter.eq_4 _ _ _ _ hhere hup]
    refine bind_congr fun _ => ?_
    split
    · exact ih
    · rfl
    · rfl

theorem enter_of_stays {t t' : Tree}
    (h : ∀ place, t.get? place = some .directory → t'.get? place = some .directory)
    {as : List String} {place q : Place} (hq : t.enter place as = .ok q) :
    t'.enter place as = .ok q := by
  fun_induction t.enter place as with
  | case1 => exact hq
  | case2 place rest ih => rw [enter, ih hq]
  | case3 place rest ih => rw [enter, ih hq]
  | case4 place name rest hhere hup ih =>
    rw [enter.eq_4 _ _ _ _ hhere hup]
    cases hname : checkName name with
    | error e =>
      rw [hname] at hq
      cases hq
    | ok _ =>
      rw [hname] at hq
      dsimp only [bind, Except.bind] at hq ⊢
      split at hq
      · rename_i hnode
        rw [h _ hnode]
        exact ih hq
      · cases hq
      · cases hq

/-- A path leads through directories to a place. -/
def Reaches (t : Tree) (path : String) (place : Place) : Prop :=
  t.enter [] (segments path) = .ok place

namespace Reaches
variable {t t' : Tree} {path path' directory name : String} {place place' : Place}

theorem of_way (h : t.Reaches path place)
    (hway : Path.way path'.toList = Path.way path.toList) : t.Reaches path' place := by
  unfold Reaches at *
  rw [← enter_filter, ← h, ← enter_filter t [] (segments path)]
  exact congrArg _ hway

theorem keeps {files directories : List Place} (h : t.Reaches path place)
    (hkeeps : t.Keeps files directories t') : t'.Reaches path place :=
  enter_of_stays hkeeps.stays h

theorem unique (h : t.Reaches path place) (h' : t.Reaches path place') : place = place' :=
  Except.ok.inj (h.symm.trans h')

theorem enter_join (h : t.Reaches directory place) (hname : Plain name)
    (hcheck : checkName name = .ok ()) :
    t.enter [] (segments (join directory name)) =
      match t.get? (place ++ [name]) with
      | some .directory => .ok (place ++ [name])
      | some (.file _) => .error .notADirectory
      | none => .error .notFound := by
  unfold Reaches at h
  rw [Path.segments_join hname, enter_append, h]
  show t.enter place [name] = _
  rw [enter_plain hname, hcheck]
  rfl

theorem enter_join_of_error {e : FileError} (hname : Plain name)
    (h : t.enter [] (segments directory) = .error e) :
    t.enter [] (segments (join directory name)) = .error e := by
  rw [Path.segments_join hname, enter_append, h]
  rfl

theorem joined (h : t.Reaches directory place) (hname : Plain name)
    (hcheck : checkName name = .ok ()) (hnode : t.get? (place ++ [name]) = some .directory) :
    t.Reaches (join directory name) (place ++ [name]) := by
  unfold Reaches
  rw [h.enter_join hname hcheck, hnode]

end Reaches

/-! ## Entries of a directory -/

/-- Whether a directory can have an entry of a name, as far as the texts tell. -/
def checkEntry (directory name : String) : Except FileError Unit := do
  checkPath (join directory name)
  checkName name

section
variable {t : Tree} {directory name : String} {place : Place} {e : FileError} {path : String}

theorem locate_entry (t : Tree) (hname : Plain name) (directory : String) :
    t.locate (join directory name) = (do
      checkPath (join directory name)
      let place ← t.enter [] (segments directory)
      checkName name
      .ok ⟨place ++ [name], false⟩) := by
  have hlast : decide ((join directory name).toList.getLast? = some '/') = false :=
    decide_eq_false (Path.getLast?_join_ne hname directory)
  unfold locate
  rw [Path.segments_join hname, List.reverse_concat]
  dsimp only
  simp only [List.reverse_reverse, if_neg hname.ne_here, if_neg hname.ne_up, hlast]

theorem locate_join (h : t.Reaches directory place) (hname : Plain name) :
    t.locate (join directory name) = (do
      checkEntry directory name
      .ok ⟨place ++ [name], false⟩) := by
  rw [locate_entry t hname, h, checkEntry]
  cases checkPath (join directory name) <;> rfl

theorem locate_join_bind {β : Type} (h : t.Reaches directory place) (hname : Plain name)
    (f : Target → Except FileError β) : (t.locate (join directory name) >>= f) = (do
      checkEntry directory name
      f ⟨place ++ [name], false⟩) := by
  rw [locate_join h hname, bind_assoc]
  rfl

theorem locate_join_of_error (hname : Plain name) (h : t.enter [] (segments directory) = .error e) :
    t.locate (join directory name) = (do
      checkPath (join directory name)
      .error e) := by
  rw [locate_entry t hname, h]
  rfl

/-- A path that leads somewhere is an entry of a directory that can be reached. -/
theorem exists_reaches {target : Target} (hname : Plain name)
    (h : t.locate (join directory name) = .ok target) :
    ∃ place, t.Reaches directory place ∧ checkEntry directory name = .ok () ∧
      target = ⟨place ++ [name], false⟩ := by
  cases henter : t.enter [] (segments directory) with
  | error e =>
    rw [locate_join_of_error hname henter] at h
    cases hpath : checkPath (join directory name) <;> simp [hpath, bind, Except.bind] at h
  | ok place =>
    rw [locate_join henter hname] at h
    cases hentry : checkEntry directory name with
    | error e =>
      rw [hentry] at h
      cases h
    | ok _ =>
      rw [hentry] at h
      exact ⟨place, henter, rfl, (Except.ok.inj h).symm⟩

section
variable (h : t.Reaches directory place) (hname : Plain name)
include h hname

theorem stat_join :
    t.stat (join directory name) = (do
      checkEntry directory name
      match t.get? (place ++ [name]) with
      | none => .error .notFound
      | some node => .ok (place ++ [name], node)) := by
  rw [stat, locate_join_bind h hname]
  refine bind_congr fun _ => ?_
  rcases t.get? (place ++ [name]) with _ | _ | bytes <;> rfl

theorem readBytes_join :
    t.readBytes (join directory name) = (do
      checkEntry directory name
      match t.get? (place ++ [name]) with
      | none => .error .notFound
      | some .directory => .error .isADirectory
      | some (.file bytes) => .ok bytes) := by
  rw [readBytes, stat_join h hname, bind_assoc]
  refine bind_congr fun _ => ?_
  rcases t.get? (place ++ [name]) with _ | _ | bytes <;> rfl

theorem write_join (bytes : List UInt8) :
    t.write (join directory name) bytes = (do
      checkEntry directory name
      if t.get? (place ++ [name]) = some .directory then .error .isADirectory
      else .ok (t.put (place ++ [name]) (.file bytes))) := by
  rw [write, locate_join_bind h hname]
  refine bind_congr fun _ => ?_
  rcases t.get? (place ++ [name]) with _ | _ | bytes <;> rfl

theorem remove_join :
    t.remove (join directory name) = (do
      checkEntry directory name
      match t.get? (place ++ [name]) with
      | none => .error .notFound
      | some .directory => .error .isADirectory
      | some (.file _) => .ok (t.erase (place ++ [name]))) := by
  rw [remove, stat_join h hname, bind_assoc]
  refine bind_congr fun _ => ?_
  rcases t.get? (place ++ [name]) with _ | _ | bytes <;> rfl

theorem makeDirectory_join :
    t.makeDirectory (join directory name) = (do
      checkEntry directory name
      match t.get? (place ++ [name]) with
      | some _ => .error .alreadyExists
      | none => .ok (t.put (place ++ [name]) .directory)) := by
  unfold makeDirectory
  exact locate_join_bind h hname _

theorem rename_join {name' : String} (hname' : Plain name') (hne : name ≠ name') :
    t.rename (join directory name) (join directory name') = (do
      checkEntry directory name
      match t.get? (place ++ [name]) with
      | none => .error .notFound
      | some .directory => .error .isADirectory
      | some (.file bytes) =>
        checkEntry directory name'
        if t.get? (place ++ [name']) = some .directory then .error .isADirectory
        else .ok ((t.put (place ++ [name']) (.file bytes)).erase (place ++ [name]))) := by
  have hplace : place ++ [name'] ≠ place ++ [name] := fun hplace =>
    hne (List.singleton_inj.mp (List.append_cancel_left hplace)).symm
  rw [rename, stat_join h hname, bind_assoc]
  refine bind_congr fun _ => ?_
  rcases t.get? (place ++ [name]) with _ | _ | bytes
  · rfl
  · rfl
  · refine (locate_join_bind h hname' _).trans (bind_congr fun _ => ?_)
    rw [if_neg hplace]
    rcases t.get? (place ++ [name']) with _ | _ | bytes <;> rfl

end

/-! ## Directories in a directory -/

theorem isDirectory_of_error (h : t.locate path = .error e) : t.isDirectory path = false := by
  unfold isDirectory stat
  rw [h]
  rfl

theorem isDirectory_join (h : t.Reaches directory place) (hname : Plain name)
    (hentry : checkEntry directory name = .ok ()) :
    t.isDirectory (join directory name) = decide (t.get? (place ++ [name]) = some .directory) := by
  unfold isDirectory
  rw [stat_join h hname, hentry]
  dsimp only [bind, Except.bind]
  rcases t.get? (place ++ [name]) with _ | _ | bytes <;> rfl

theorem makeFrom_of_error (h : t.locate path = .error e) (he : e ≠ .notFound)
    (below parents : List String) : t.makeFrom below (path :: parents) = ⟨t, some e⟩ := by
  have hmake : t.makeDirectory path = .error e := by
    rw [makeDirectory, h]
    rfl
  rw [makeFrom, isDirectory_of_error h, hmake]
  cases e with
  | notFound => exact absurd rfl he
  | _ => rfl

theorem makeAll_join (h : t.Reaches directory place) (hname : Plain name)
    (hentry : checkEntry directory name = .ok ()) (rest : List String) :
    t.makeAll (join directory name :: rest) =
      if t.hasFile (place ++ [name]) then ⟨t, some .alreadyExists⟩
      else (t.ensure (place ++ [name])).makeAll rest := by
  rw [makeAll, makeDirectory_join h hname, isDirectory_join h hname hentry, hentry]
  unfold hasFile ensure
  dsimp only [bind, Except.bind]
  rcases t.get? (place ++ [name]) with _ | _ | bytes <;> rfl

theorem makeFrom_join (h : t.Reaches directory place) (hname : Plain name)
    (hentry : checkEntry directory name = .ok ()) (below parents : List String) :
    t.makeFrom below (join directory name :: parents) =
      if t.hasFile (place ++ [name]) then ⟨t, some .alreadyExists⟩
      else (t.ensure (place ++ [name])).makeAll below := by
  rw [makeFrom, makeDirectory_join h hname, isDirectory_join h hname hentry, hentry]
  unfold hasFile ensure
  dsimp only [bind, Except.bind]
  rcases t.get? (place ++ [name]) with _ | _ | bytes <;> rfl

theorem makeFrom_of_notFound (h : t.locate path = .error .notFound) (below parents : List String) :
    t.makeFrom below (path :: parents) = t.makeFrom (path :: below) parents := by
  rw [makeFrom, makeDirectory, h]
  rfl

theorem checkPath_ne_notFound (path : String) : checkPath path ≠ .error .notFound := by
  unfold checkPath
  split
  · exact nofun
  · split <;> exact nofun

theorem checkPath_eq_ok_iff (path : String) :
    checkPath path = .ok () ↔ '\x00' ∉ path.toList ∧ path.utf8ByteSize < pathBound := by
  unfold checkPath
  split
  · simp_all
  · split
    · simp_all
    · simp_all

theorem checkPath_of_append {path ending : String} (h : checkPath (path ++ ending) = .ok ()) :
    checkPath path = .ok () := by
  rw [checkPath_eq_ok_iff] at *
  rw [String.toList_append, List.mem_append, not_or, String.utf8ByteSize_append] at h
  exact ⟨h.1.1, by omega⟩

/-- A directory in a directory of a directory that is there. Only a file can be in its way. -/
theorem makeDirectories_join {inner : String} (h : t.Reaches directory place) (hname : Plain name)
    (hinner : Plain inner) (hcheck : checkName name = .ok ()) (hcheck' : checkName inner = .ok ()) :
    t.makeDirectories (join (join directory name) inner) =
      match checkPath (join (join directory name) inner) with
      | .error e => ⟨t, some e⟩
      | .ok () =>
        if t.hasFile (place ++ [name]) then ⟨t, some .notADirectory⟩
        else if t.hasFile (place ++ [name] ++ [inner]) then
          ⟨t.ensure (place ++ [name]), some .alreadyExists⟩
        else ⟨(t.ensure (place ++ [name])).ensure (place ++ [name] ++ [inner]), none⟩ := by
  obtain ⟨parents, hparents⟩ := Path.ancestors_join hname directory
  rw [makeDirectories, Path.ancestors_join_join hname hinner, hparents]
  cases hpath : checkPath (join (join directory name) inner) with
  | error e =>
    have hlocate : t.locate (join (join directory name) inner) = .error e := by
      rw [locate, hpath]
      rfl
    exact makeFrom_of_error hlocate (by rintro rfl; exact checkPath_ne_notFound _ hpath) ..
  | ok _ =>
    have hentry : checkEntry (join directory name) inner = .ok () := by
      rw [checkEntry, hpath]
      exact hcheck'
    have hentry' : checkEntry directory name = .ok () := by
      rw [Path.join_join hname hinner, String.append_assoc] at hpath
      rw [checkEntry, checkPath_of_append hpath]
      exact hcheck
    have henter := h.enter_join hname hcheck
    rcases hnode : t.get? (place ++ [name]) with _ | _ | bytes
    · -- The outer directory is missing: it is made first.
      rw [hnode] at henter
      have hlocate := locate_join_of_error hinner henter
      rw [hpath] at hlocate
      have hfile : t.hasFile (place ++ [name]) = false := by rw [hasFile, hnode]
      have hmade := get?_ensure (by simp) hfile
      have hreach := (h.keeps (Keeps.ensure (by simp) t)).joined hname hcheck hmade
      rw [makeFrom_of_notFound hlocate, makeFrom_join h hname hentry',
        makeAll_join hreach hinner hentry, hasFile_ensure (by simp)]
      simp [hasFile, hnode, makeAll]
    · rw [hnode] at henter
      have hensure : t.ensure (place ++ [name]) = t := if_neg (by simp [hnode])
      rw [makeFrom_join henter hinner hentry, hensure]
      simp [hasFile, hnode, makeAll]
    · rw [hnode] at henter
      have hlocate := locate_join_of_error hinner henter
      rw [hpath] at hlocate
      rw [makeFrom_of_error hlocate nofun]
      simp [hasFile, hnode]

end

end Tree

end NativeInterface
