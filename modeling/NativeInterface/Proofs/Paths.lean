import NativeInterface.Files.Directories

/-!
# Joined paths

A path is joined from a directory and a plain name. Its names are those of the directory and the
plain one (`segments_join`), and its parent leads where the directory leads (`parent?_join`), though
it need not be spelled the same: dots and slashes at its end fall away.
-/

namespace NativeInterface

namespace Path
open NativeInterface.Tree (segments)
variable {name : String} {front : List Char}

/-- A name that stands for an entry of a directory. -/
structure Plain (name : String) : Prop where
  ne_empty : name ≠ ""
  noSlash : '/' ∉ name.toList
  ne_here : name ≠ "."
  ne_up : name ≠ ".."

instance (name : String) : Decidable (Plain name) :=
  decidable_of_iff (name ≠ "" ∧ '/' ∉ name.toList ∧ name ≠ "." ∧ name ≠ "..")
    ⟨fun h => ⟨h.1, h.2.1, h.2.2.1, h.2.2.2⟩,
      fun h => ⟨h.ne_empty, h.noSlash, h.ne_here, h.ne_up⟩⟩

/-- A name with an ending that has no slash in it and does not stop at a dot. -/
theorem Plain.append {name ending : String} {c : Char} (h : '/' ∉ name.toList)
    (hending : '/' ∉ ending.toList) (hlast : ending.toList.getLast? = some c) (hc : c ≠ '.') :
    Plain (name ++ ending) := by
  have hlast : (name ++ ending).toList.getLast? = some c := by
    rw [String.toList_append, List.getLast?_append, hlast, Option.some_or]
  have hne {s : String} {d : Option Char} (hs : s.toList.getLast? = d) (hd : some c ≠ d) :
      name ++ ending ≠ s := by
    rintro rfl
    exact hd (hlast.symm.trans hs)
  refine ⟨hne rfl nofun, ?_, hne (s := ".") rfl ?_, hne (s := "..") rfl ?_⟩
  · rw [String.toList_append, List.mem_append, not_or]
    exact ⟨h, hending⟩
  · exact fun h => hc (Option.some.inj h)
  · exact fun h => hc (Option.some.inj h)

/-! ## Segments -/

/-- The names in the characters of a path. -/
def names (cs : List Char) : List String :=
  ((Text.splitOn '/' cs).filter fun w => !w.isEmpty).map String.ofList

theorem segments_eq (path : String) : segments path = names path.toList := rfl

theorem names_append (cs ds : List Char) : names (cs ++ '/' :: ds) = names cs ++ names ds := by
  unfold names
  rw [Text.splitOn_append, List.filter_append, List.map_append]

theorem names_concat_slash (cs : List Char) : names (cs ++ ['/']) = names cs := by
  rw [names_append]
  exact List.append_nil _

theorem names_plain (h : Plain name) : names name.toList = [name] := by
  have hne : name.toList ≠ [] := fun hnil => h.ne_empty (String.toList_eq_nil_iff.mp hnil)
  unfold names
  rw [Text.splitOn_of_notMem h.noSlash, List.filter_cons_of_pos (by simpa using hne)]
  simp

/-- Characters that a name can follow: none, or some that end in a slash. -/
def IsFront (front : List Char) : Prop := front = [] ∨ ∃ cs, front = cs ++ ['/']

theorem IsFront.reverse (h : IsFront front) :
    front.reverse = [] ∨ ∃ cs, front.reverse = '/' :: cs := by
  rcases h with rfl | ⟨cs, rfl⟩
  · exact .inl rfl
  · exact .inr ⟨cs.reverse, by simp⟩

theorem names_front (h : IsFront front) (cs : List Char) :
    names (front ++ cs) = names front ++ names cs := by
  rcases h with rfl | ⟨ds, rfl⟩
  · rfl
  · rw [List.append_assoc, names_concat_slash]
    exact names_append ds cs

section
variable (h : Plain name)
include h

/-- A joined path is its name behind a front with the names of the directory. -/
theorem exists_front (directory : String) :
    ∃ front, IsFront front ∧ names front = names directory.toList ∧
      (join directory name).toList = front ++ name.toList := by
  have hhead : name.toList.head? ≠ some '/' := fun hhead => h.noSlash (List.mem_of_mem_head? hhead)
  unfold join
  rw [if_neg hhead]
  split
  · rename_i hend
    refine ⟨directory.toList, ?_, rfl, String.toList_append⟩
    rw [Bool.or_eq_true, String.isEmpty_iff, decide_eq_true_eq] at hend
    exact hend.imp (fun hempty => by rw [hempty]; rfl) List.getLast?_eq_some_iff.mp
  · exact ⟨directory.toList ++ ['/'], .inr ⟨_, rfl⟩, names_concat_slash _, by simp⟩

theorem segments_join (directory : String) :
    segments (join directory name) = segments directory ++ [name] := by
  obtain ⟨front, hfront, hnames, hjoin⟩ := exists_front h directory
  rw [segments_eq, segments_eq, hjoin, names_front hfront, hnames, names_plain h]

theorem getLast?_join (directory : String) :
    (join directory name).toList.getLast? = name.toList.getLast? := by
  obtain ⟨front, -, -, hjoin⟩ := exists_front h directory
  have hne : name.toList ≠ [] := by simpa using h.ne_empty
  rw [hjoin, List.getLast?_append, List.getLast?_eq_some_getLast hne, Option.some_or]

theorem join_ne_empty (directory : String) : join directory name ≠ "" := by
  intro hempty
  have hlast := getLast?_join h directory
  rw [hempty] at hlast
  exact h.ne_empty (String.toList_eq_nil_iff.mp (List.getLast?_eq_none_iff.mp hlast.symm))

/-- A joined path does not end in a slash. -/
theorem getLast?_join_ne (directory : String) :
    (join directory name).toList.getLast? ≠ some '/' := by
  rw [getLast?_join h]
  exact fun hlast => h.noSlash (List.mem_of_getLast? hlast)

theorem join_join {name' : String} (h' : Plain name') (directory : String) :
    join (join directory name) name' = join directory name ++ "/" ++ name' := by
  have hhead : name'.toList.head? ≠ some '/' :=
    fun hhead => h'.noSlash (List.mem_of_mem_head? hhead)
  have hne := join_ne_empty h directory
  have hcase : ¬ ((join directory name).isEmpty ||
      (join directory name).toList.getLast? = some '/') = true := by
    simp [hne, getLast?_join_ne h]
  rw [join, if_neg hhead, if_neg hcase]

theorem join_append (directory ending : String) :
    join directory (name ++ ending) = join directory name ++ ending := by
  have hne : name.toList ≠ [] := by simpa using h.ne_empty
  have hhead : (name ++ ending).toList.head? = name.toList.head? := by
    rw [String.toList_append, List.head?_append, List.head?_eq_some_head hne, Option.some_or]
  unfold join
  rw [hhead]
  split
  · rfl
  · split <;> simp only [String.append_assoc]

end

/-! ## Parents -/

/-- The names that a path goes through; dots do not count. -/
def way (cs : List Char) : List String := (names cs).filter (· ≠ ".")

theorem way_concat_slash (cs : List Char) : way (cs ++ ['/']) = way cs := by
  unfold way
  rw [names_concat_slash]

theorem way_concat_dot (cs : List Char) : way (cs ++ ['/', '.']) = way cs := by
  unfold way
  rw [names_append, List.filter_append]
  exact List.append_nil _

theorem way_trimEnd (cs : List Char) : way (trimEnd cs).reverse = way cs.reverse := by
  fun_induction trimEnd cs with
  | case1 => rfl
  | case2 rest _ ih => rw [ih, List.reverse_cons, way_concat_slash]
  | case3 rest ih =>
    rw [ih, List.reverse_cons, List.reverse_cons, List.reverse_cons, way_concat_slash,
      List.append_assoc]
    exact (way_concat_dot _).symm
  | case4 => rfl

theorem trimEnd_slash {cs : List Char} (h : cs ≠ []) : trimEnd ('/' :: cs) = trimEnd cs := by
  obtain ⟨c, cs, rfl⟩ := List.exists_cons_of_ne_nil h
  rw [trimEnd]
  exact nofun

section
variable (h : Plain name)
include h

/-- Nothing is trimmed behind a plain name. -/
theorem trimEnd_plain {cs : List Char} (hcs : cs = [] ∨ ∃ ds, cs = '/' :: ds) :
    trimEnd (name.toList.reverse ++ cs) = name.toList.reverse ++ cs := by
  obtain ⟨ds, hds⟩ : ∃ ds, name.toList.reverse = ds := ⟨_, rfl⟩
  have hslash : '/' ∉ ds := by
    rw [← hds, List.mem_reverse]
    exact h.noSlash
  rw [hds]
  rcases ds with _ | ⟨c, _ | ⟨d, ds⟩⟩
  · exact absurd (String.toList_eq_nil_iff.mp (List.reverse_eq_nil_iff.mp hds)) h.ne_empty
  · have hc : c ≠ '/' := by simpa [eq_comm] using hslash
    have hdot : c ≠ '.' := by
      rintro rfl
      exact h.ne_here (String.toList_inj.mp (List.reverse_eq_iff.mp hds))
    rcases hcs with rfl | ⟨es, rfl⟩ <;> simp [trimEnd, hdot, hc]
  · have hc : c ≠ '/' := fun hc => hslash (hc ▸ List.mem_cons_self)
    have hd : d ≠ '/' := fun hd => hslash (hd ▸ List.mem_cons_of_mem _ List.mem_cons_self)
    simp [trimEnd, hc, hd]

theorem parent?_of_front {path : String} (hfront : IsFront front)
    (hpath : path.toList = front ++ name.toList) :
    parent? path = some (String.ofList (trimEnd front.reverse).reverse) := by
  have hrest := hfront.reverse
  have hne : name.toList.reverse ≠ [] := by simpa using h.ne_empty
  have hslash : '/' ∉ name.toList.reverse := by simpa using h.noSlash
  have hback : trimEnd path.toList.reverse = name.toList.reverse ++ front.reverse := by
    rw [hpath, List.reverse_append, trimEnd_plain h hrest]
  have hdrop : (name.toList.reverse ++ front.reverse).dropWhile (· ≠ '/') = front.reverse := by
    rw [List.dropWhile_append_of_pos fun c hc => decide_eq_true (ne_of_mem_of_not_mem hc hslash)]
    rcases hrest with hnil | ⟨cs, hcs⟩
    · rw [hnil, List.dropWhile_nil]
    · rw [hcs, List.dropWhile_cons_of_neg (by simp)]
  have hroot : name.toList.reverse ++ front.reverse ≠ ['/'] := by
    intro hroot
    obtain ⟨c, cs, hcs⟩ := List.exists_cons_of_ne_nil hne
    rw [hcs, List.cons_append, List.cons.injEq] at hroot
    exact hslash (hcs ▸ hroot.1 ▸ List.mem_cons_self)
  unfold parent?
  rw [hback]
  dsimp only
  rw [hdrop, if_neg]
  simp [h.ne_empty, hroot]

/-- The parent of a joined path goes the way of the directory. -/
theorem parent?_join (directory : String) :
    ∃ parent, parent? (join directory name) = some parent ∧
      way parent.toList = way directory.toList := by
  obtain ⟨front, hfront, hnames, hjoin⟩ := exists_front h directory
  refine ⟨_, parent?_of_front h hfront hjoin, ?_⟩
  rw [String.toList_ofList, way_trimEnd, List.reverse_reverse, way, hnames, way]

/-- The parent of a path in a directory that is itself joined is spelled as the directory is. -/
theorem parent?_join_join {name' : String} (h' : Plain name') (directory : String) :
    parent? (join (join directory name) name') = some (join directory name) := by
  obtain ⟨front, hfront, -, hjoin⟩ := exists_front h directory
  have hpath : (join (join directory name) name').toList =
      ((join directory name).toList ++ ['/']) ++ name'.toList := by
    rw [join_join h h']
    simp
  have htrim : trimEnd ('/' :: (join directory name).toList.reverse) =
      (join directory name).toList.reverse := by
    rw [hjoin, List.reverse_append, trimEnd_slash (by simp [h.ne_empty]),
      trimEnd_plain h hfront.reverse]
  rw [parent?_of_front h' (.inr ⟨_, rfl⟩) hpath, List.reverse_append]
  exact congrArg some (by rw [List.reverse_singleton, List.singleton_append, htrim,
    List.reverse_reverse, String.ofList_toList])

/-- The ancestors of a path in a joined directory go on with those of the directory. -/
theorem ancestors_join_join {name' : String} (h' : Plain name') (directory : String) :
    ancestors (join (join directory name) name') =
      join (join directory name) name' :: ancestors (join directory name) := by
  have hne := join_ne_empty h' (join directory name)
  have hlength : (join directory name).length < (join (join directory name) name').length := by
    rw [join_join h h', String.length_append, String.length_append]
    exact Nat.lt_add_right _ (Nat.lt_succ_self _)
  rw [ancestors, if_neg (by simpa using hne), parent?_join_join h h']
  exact congrArg _ (if_pos hlength)

theorem ancestors_join (directory : String) :
    ∃ parents, ancestors (join directory name) = join directory name :: parents := by
  rw [ancestors, if_neg (by simpa using join_ne_empty h directory)]
  exact ⟨_, rfl⟩

/-! ## File names -/

theorem getLast?_parts {path : String} {ws : List (List Char)}
    (hpath : Text.splitOn '/' path.toList = ws ++ [name.toList]) :
    (parts path).getLast? = some (.name name) := by
  have hempty : name.toList.isEmpty = false := by simpa using h.ne_empty
  have hhere : name.toList ≠ ['.'] := fun hname => h.ne_here (String.toList_inj.mp hname)
  have hup : name.toList ≠ ['.', '.'] := fun hname => h.ne_up (String.toList_inj.mp hname)
  have hpart : Part.ofText name.toList = .name name := by simp [Part.ofText, hup]
  unfold parts
  cases ws with
  | nil => simp [hpath, hempty, hhere, hpart]
  | cons w ws => simp [hpath, h.ne_empty, hhere, hpart]

theorem fileName?_join (directory : String) : fileName? (join directory name) = some name := by
  obtain ⟨front, hfront, -, hjoin⟩ := exists_front h directory
  have hsplit : ∃ ws, Text.splitOn '/' (join directory name).toList = ws ++ [name.toList] := by
    rw [hjoin]
    rcases hfront with rfl | ⟨cs, rfl⟩
    · exact ⟨[], Text.splitOn_of_notMem h.noSlash⟩
    · refine ⟨Text.splitOn '/' cs, ?_⟩
      rw [← Text.splitOn_of_notMem h.noSlash, ← Text.splitOn_append, List.append_assoc]
      rfl
  obtain ⟨ws, hws⟩ := hsplit
  rw [fileName?, getLast?_parts h hws]

end

theorem stripSuffix?_append (s suffix : String) : stripSuffix? suffix (s ++ suffix) = some s := by
  unfold stripSuffix?
  rw [String.toList_append, if_pos (by simp), String.length_append, Nat.add_sub_cancel,
    ← String.length_toList, List.take_left, String.ofList_toList]

end Path

/-- A spec in a directory has the name of its file without the suffix. -/
theorem specName_join {name : String} (h : Path.Plain (name ++ specSuffix)) (directory : String) :
    specName (Path.join directory (name ++ specSuffix)) = name := by
  unfold specName
  rw [Path.fileName?_join h, Option.getD_some]
  dsimp only
  rw [Path.stripSuffix?_append, Option.getD_some]

end NativeInterface
