import NativeInterface.Proofs.NewDirectories

/-!
# Artifacts as a pair

Both files of a pair are staged and then moved into place. Whatever is put somewhere on the way can
be removed again (`Pending`), so each failure takes it away: the header and the staged files are
then as they were or absent, and the source is as it was. Together with what making the output
directory can do, this says what writing artifacts leaves of any tree (`paired_or_withdrawn`).
-/

namespace NativeInterface
open NativeInterface.Path (Plain join)

/-! ## Runs that may fail -/

namespace Run

/-- From a tree a run gives a value and leaves a tree as `Q` says, or it fails and leaves one as `E`
says. -/
def Leaves {α : Type} (x : Run α) (t : Tree) (Q : α → Tree → Prop) (E : Tree → Prop) : Prop :=
  (∃ a u, Turns x t (.ok a) u ∧ Q a u) ∨ ∃ e u, Turns x t (.error e) u ∧ E u

namespace Leaves
variable {α β : Type} {x : Run α} {f : α → Run β} {t : Tree} {Q : α → Tree → Prop}
  {R : β → Tree → Prop} {E E' : Tree → Prop}

theorem bind (hx : Leaves x t Q E) (hf : ∀ a u, Q a u → Leaves (f a) u R E) :
    Leaves (x >>= f) t R E := by
  rcases hx with ⟨a, u, hturns, hQ⟩ | ⟨e, u, hturns, hE⟩
  · rcases hf a u hQ with ⟨b, v, hturns', hR⟩ | ⟨e, v, hturns', hE⟩
    · exact .inl ⟨b, v, hturns.bind hturns', hR⟩
    · exact .inr ⟨e, v, hturns.bind hturns', hE⟩
  · exact .inr ⟨e, u, hturns.bind_of_error, hE⟩

theorem orElseDo {cleanup : Run Unit} (hx : Leaves x t Q E)
    (hcleanup : ∀ u, E u → ∃ v, Turns cleanup u (.ok ()) v ∧ E' v) :
    Leaves (orElseDo x cleanup) t Q E' := by
  rcases hx with ⟨a, u, hturns, hQ⟩ | ⟨e, u, hturns, hE⟩
  · exact .inl ⟨a, u, hturns.orElseDo, hQ⟩
  · obtain ⟨v, hturns', hE'⟩ := hcleanup u hE
    exact .inr ⟨e, v, hturns.orElseDo_of_error hturns', hE'⟩

theorem change {path : String} {operation : Tree → Except FileError Tree} {Q : Unit → Tree → Prop}
    (hok : ∀ u, operation t = .ok u → Q () u) (herror : ∀ e, operation t = .error e → E t) :
    Leaves (change path operation) t Q E := by
  cases h : operation t with
  | ok u => exact .inl ⟨(), u, .change h, hok u h⟩
  | error e => exact .inr ⟨_, t, .change_of_error h, herror e h⟩

theorem makeDirectories (path : String) (t : Tree) :
    Leaves (makeDirectories path) t (fun _ => t.Opens (Path.ancestors path))
      (t.Opens (Path.ancestors path)) := by
  have hturns := Turns.makeDirectories path t
  have hopens := Tree.Opens.of_makeDirectories t path
  cases h : (t.makeDirectories path).error with
  | none =>
    rw [h] at hturns
    exact .inl ⟨(), _, hturns, hopens⟩
  | some e =>
    rw [h] at hturns
    exact .inr ⟨_, _, hturns, hopens⟩

theorem mono {Q' : α → Tree → Prop} (h : Leaves x t Q E) (hQ : ∀ a u, Q a u → Q' a u)
    (hE : ∀ u, E u → E' u) : Leaves x t Q' E' := by
  rcases h with ⟨a, u, hturns, h⟩ | ⟨e, u, hturns, h⟩
  · exact .inl ⟨a, u, hturns, hQ a u h⟩
  · exact .inr ⟨e, u, hturns, hE u h⟩

end Leaves

end Run

/-! ## Pairs in a directory -/

namespace Artifacts
open Run (Turns Leaves)

/-- The endings of what may be taken away again when a pair cannot be written: all but the
source. -/
def loose : List String := [".h", ".h.tmp", ".c.tmp"]

theorem plain_ending {stem ending : String} (hstem : '/' ∉ stem.toList)
    (h : ending ∈ Site.endings) : Plain (stem ++ ending) :=
  Site.plain_artifact ⟨"", [], stem, hstem⟩ h

theorem loose_subset : loose ⊆ Site.endings := by decide

/-- A tree on the way from another one to a pair of files with a common stem in a directory. Under
the marked endings there is something that can be removed. Under the other ones all is as it was, or
there is nothing any more. -/
structure Pending (directory stem : String) (place : Place) (t : Tree) (marked : List String)
    (u : Tree) : Prop where
  reaches : u.Reaches directory place
  kept : t.Keeps (loose.map fun ending => place ++ [stem ++ ending]) [] u
  free : ∀ ending ∈ marked, t.hindrance? directory (stem ++ ending) place = none
  settled : ∀ ending ∈ loose, ending ∉ marked →
    u.get? (place ++ [stem ++ ending]) = t.get? (place ++ [stem ++ ending]) ∨
      (u.get? (place ++ [stem ++ ending]) = none ∧
        t.hindrance? directory (stem ++ ending) place = none)

namespace Pending
variable {directory stem ending ending' : String} {place : Place} {t u v : Tree}
  {marked marked' : List String}

theorem refl (h : t.Reaches directory place) : Pending directory stem place t [] t :=
  ⟨h, .refl t, nofun, fun _ _ _ => .inl rfl⟩

section
variable (h : Pending directory stem place t marked u)
include h

theorem hindrance?_eq (ending : String) :
    u.hindrance? directory (stem ++ ending) place =
      t.hindrance? directory (stem ++ ending) place :=
  Tree.hindrance?_of_keeps h.kept List.not_mem_nil

theorem ne_directory (hfree : t.hindrance? directory (stem ++ ending) place = none) :
    u.get? (place ++ [stem ++ ending]) ≠ some .directory :=
  (Tree.checkEntry_of_free ((h.hindrance?_eq ending).trans hfree)).2

/-- A change under one ending. -/
theorem step (hending : ending ∈ loose)
    (hfree : t.hindrance? directory (stem ++ ending) place = none)
    (hkeeps : u.Keeps [place ++ [stem ++ ending]] [] v)
    (hnode : ending ∈ marked' ∨ v.get? (place ++ [stem ++ ending]) = none)
    (hmarked : marked ⊆ ending :: marked') (hmarked' : marked' ⊆ ending :: marked) :
    Pending directory stem place t marked' v where
  reaches := h.reaches.keeps hkeeps
  kept := h.kept.trans (hkeeps.mono
    (List.cons_subset.mpr ⟨List.mem_map_of_mem hending, List.nil_subset _⟩) (List.nil_subset _))
  free other hother := by
    rcases List.mem_cons.mp (hmarked' hother) with rfl | hother
    · exact hfree
    · exact h.free other hother
  settled other hother hne := by
    by_cases heq : other = ending
    · subst heq
      exact .inr ⟨hnode.resolve_left hne, hfree⟩
    · have hplace : place ++ [stem ++ other] ∉ [place ++ [stem ++ ending]] := by simpa using heq
      rw [hkeeps.get?_eq hplace List.not_mem_nil]
      refine h.settled other hother fun hmem => hne ?_
      exact (List.mem_cons.mp (hmarked hmem)).resolve_left heq

theorem put (hending : ending ∈ loose)
    (hfree : t.hindrance? directory (stem ++ ending) place = none) (bytes : List UInt8) :
    Pending directory stem place t (ending :: marked)
      (u.put (place ++ [stem ++ ending]) (.file bytes)) :=
  h.step hending hfree (.put_file (by simp) (h.ne_directory hfree) bytes) (.inl List.mem_cons_self)
    (fun _ hmem => List.mem_cons_of_mem _ (List.mem_cons_of_mem _ hmem)) (List.Subset.refl _)

theorem erase (hending : ending ∈ loose)
    (hfree : t.hindrance? directory (stem ++ ending) place = none) :
    Pending directory stem place t (marked.filter (· ≠ ending))
      (u.erase (place ++ [stem ++ ending])) := by
  have hnone : (u.erase (place ++ [stem ++ ending])).get? (place ++ [stem ++ ending]) = none := by
    rw [Tree.get?_erase (by simp), if_pos rfl]
  refine h.step hending hfree (.erase (by simp) (h.ne_directory hfree)) (.inr hnone) ?_ ?_
  · intro other hother
    by_cases heq : other = ending
    · exact heq ▸ List.mem_cons_self
    · exact List.mem_cons_of_mem _ (List.mem_filter.mpr ⟨hother, decide_eq_true heq⟩)
  · exact fun other hother => List.mem_cons_of_mem _ (List.mem_filter.mp hother).1

theorem discard (hstem : '/' ∉ stem.toList) (hending : ending ∈ loose) :
    ∃ v, Turns (Run.discard (join directory (stem ++ ending))) u (.ok ()) v ∧
      Pending directory stem place t (marked.filter (· ≠ ending)) v := by
  have hturns := Tree.turns_discard h.reaches (plain_ending hstem (loose_subset hending))
  refine ⟨_, hturns, ?_⟩
  rw [h.hindrance?_eq]
  cases hfree : t.hindrance? directory (stem ++ ending) place with
  | none => exact h.erase hending hfree
  | some e =>
    -- Nothing that cannot be removed is marked.
    have hnot : ∀ other ∈ marked, other ≠ ending := by
      rintro other hother rfl
      rw [h.free other hother] at hfree
      cases hfree
    rw [List.filter_eq_self.mpr fun other hother => decide_eq_true (hnot other hother)]
    exact h

/-- What is marked is taken away. -/
theorem clear (hstem : '/' ∉ stem.toList) (hending : ending ∈ loose) (hending' : ending' ∈ loose)
    (hmarked : marked ⊆ [ending, ending']) :
    ∃ v, Turns (do
        Run.discard (join directory (stem ++ ending))
        Run.discard (join directory (stem ++ ending'))) u (.ok ()) v ∧
      Pending directory stem place t [] v := by
  obtain ⟨v, hturns, hv⟩ := h.discard hstem hending
  obtain ⟨v', hturns', hv'⟩ := hv.discard hstem hending'
  refine ⟨v', hturns.bind hturns', ?_⟩
  have hnil : (marked.filter (· ≠ ending)).filter (· ≠ ending') = [] := by
    rw [List.filter_eq_nil_iff]
    intro other hother
    obtain ⟨hother, hne⟩ := List.mem_filter.mp hother
    have hcases : other = ending ∨ other = ending' := by simpa using hmarked hother
    rcases hcases with rfl | rfl
    · simp at hne
    · simp
  rwa [hnil] at hv'

theorem write (hstem : '/' ∉ stem.toList) (hending : ending ∈ loose) (text : String) :
    Leaves (Run.writeFile (join directory (stem ++ ending)) text) u
      (fun _ v => Pending directory stem place t (ending :: marked) v ∧
        v = u.put (place ++ [stem ++ ending]) (.file (Tree.bytesOf text)))
      (fun v => v = u) := by
  have hwrite := Tree.write_of_hindrance? h.reaches (plain_ending hstem (loose_subset hending))
    (Tree.bytesOf text)
  rw [h.hindrance?_eq] at hwrite
  refine .change (fun v hv => ?_) fun _ _ => rfl
  rw [hwrite] at hv
  cases hfree : t.hindrance? directory (stem ++ ending) place with
  | some e =>
    rw [hfree] at hv
    cases hv
  | none =>
    rw [hfree] at hv
    cases hv
    exact ⟨h.put hending hfree _, rfl⟩

theorem rename {bytes : List UInt8} {path : String} (hstem : '/' ∉ stem.toList)
    (hending : ending ∈ marked) (hloose : ending ∈ loose) (hending' : ending' ∈ Site.endings)
    (hne : ending ≠ ending') (hnode : u.get? (place ++ [stem ++ ending]) = some (.file bytes)) :
    Leaves (Run.change path
        (·.rename (join directory (stem ++ ending)) (join directory (stem ++ ending')))) u
      (fun _ v => t.hindrance? directory (stem ++ ending') place = none ∧
        v = (u.put (place ++ [stem ++ ending']) (.file bytes)).erase (place ++ [stem ++ ending]))
      (fun v => v = u) := by
  have hname : stem ++ ending ≠ stem ++ ending' := by simpa using hne
  have hrename := Tree.rename_of_hindrance? h.reaches
    (plain_ending hstem (loose_subset hloose)) (plain_ending hstem hending') hname
    ((h.hindrance?_eq ending).trans (h.free ending hending)) hnode
  rw [h.hindrance?_eq] at hrename
  refine .change (fun v hv => ?_) fun _ _ => rfl
  rw [hrename] at hv
  cases hfree : t.hindrance? directory (stem ++ ending') place with
  | some e =>
    rw [hfree] at hv
    cases hv
  | none =>
    rw [hfree] at hv
    cases hv
    exact ⟨rfl, rfl⟩

end

end Pending

/-! ### The three steps -/

/-- Both files of a pair are there, and nothing is staged. -/
structure Paired (a : Artifacts) (code : GeneratedCode) (t : Tree) : Prop where
  header : t.readBytes a.header = .ok (Tree.bytesOf code.header)
  source : t.readBytes a.source = .ok (Tree.bytesOf code.source)
  staged : ∀ path ∈ [a.header, a.source], t.stat (staging path) = .error .notFound

section
variable {directory stem : String} {place : Place} {code : GeneratedCode} {t u : Tree}
  (hstem : '/' ∉ stem.toList)
include hstem

theorem staging_join {ending : String} (h : ending ∈ Site.endings) (directory : String) :
    staging (join directory (stem ++ ending)) = join directory (stem ++ (ending ++ ".tmp")) := by
  rw [staging, ← Path.join_append (plain_ending hstem h), String.append_assoc]

theorem staging_header (directory : String) :
    staging (join directory (stem ++ ".h")) = join directory (stem ++ ".h.tmp") :=
  staging_join hstem (by decide) directory

theorem staging_source (directory : String) :
    staging (join directory (stem ++ ".c")) = join directory (stem ++ ".c.tmp") :=
  staging_join hstem (by decide) directory

theorem paired_of_nodes (h : u.Reaches directory place)
    (hentry : ∀ ending ∈ Site.endings, Tree.checkEntry directory (stem ++ ending) = .ok ())
    (hheader : u.get? (place ++ [stem ++ ".h"]) = some (.file (Tree.bytesOf code.header)))
    (hsource : u.get? (place ++ [stem ++ ".c"]) = some (.file (Tree.bytesOf code.source)))
    (hstaged : ∀ ending ∈ [".h.tmp", ".c.tmp"], u.get? (place ++ [stem ++ ending]) = none) :
    Paired ⟨join directory (stem ++ ".h"), join directory (stem ++ ".c")⟩ code u where
  header := by
    rw [Tree.readBytes_join h (plain_ending hstem (by decide)), hentry _ (by decide), hheader]
    rfl
  source := by
    rw [Tree.readBytes_join h (plain_ending hstem (by decide)), hentry _ (by decide), hsource]
    rfl
  staged path hpath := by
    have hnone : ∀ ending ∈ [".h.tmp", ".c.tmp"],
        u.stat (join directory (stem ++ ending)) = .error .notFound := by
      intro ending hending
      have hmem : ending ∈ Site.endings := by
        revert ending
        decide
      rw [Tree.stat_join h (plain_ending hstem hmem), hentry _ hmem, hstaged _ hending]
      rfl
    simp only [List.mem_cons, List.not_mem_nil, or_false] at hpath
    rcases hpath with rfl | rfl
    · rw [staging_header hstem]
      exact hnone _ (by decide)
    · rw [staging_source hstem]
      exact hnone _ (by decide)

theorem leaves_stage (h : Pending directory stem place t [] u) :
    Leaves (do
        Run.writeFile (join directory (stem ++ ".h.tmp")) code.header
        Run.writeFile (join directory (stem ++ ".c.tmp")) code.source) u
      (fun _ v => Pending directory stem place t [".c.tmp", ".h.tmp"] v ∧
        v.get? (place ++ [stem ++ ".h.tmp"]) = some (.file (Tree.bytesOf code.header)) ∧
        v.get? (place ++ [stem ++ ".c.tmp"]) = some (.file (Tree.bytesOf code.source)))
      (fun v => ∃ marked ⊆ [".h.tmp", ".c.tmp"], Pending directory stem place t marked v) := by
  have hloose : ".h.tmp" ∈ loose := by decide
  have hloose' : ".c.tmp" ∈ loose := by decide
  apply Leaves.bind ((h.write hstem hloose code.header).mono (fun _ _ hv => hv) ?_)
  · rintro _ _ ⟨hv, rfl⟩
    apply (hv.write hstem hloose' code.source).mono
    · rintro _ _ ⟨hv, rfl⟩
      exact ⟨hv, by simp [Tree.get?_put], by simp [Tree.get?_put]⟩
    · rintro _ rfl
      exact ⟨[".h.tmp"], by simp, hv⟩
  · rintro _ rfl
    exact ⟨[], List.nil_subset _, h⟩

theorem leaves_moveHeader {path : String} {header source : List UInt8}
    (h : Pending directory stem place t [".c.tmp", ".h.tmp"] u)
    (hheader : u.get? (place ++ [stem ++ ".h.tmp"]) = some (.file header))
    (hsource : u.get? (place ++ [stem ++ ".c.tmp"]) = some (.file source)) :
    Leaves (Run.change path
        (·.rename (join directory (stem ++ ".h.tmp")) (join directory (stem ++ ".h")))) u
      (fun _ v => Pending directory stem place t [".h", ".c.tmp"] v ∧
        v.get? (place ++ [stem ++ ".h"]) = some (.file header) ∧
        v.get? (place ++ [stem ++ ".c.tmp"]) = some (.file source) ∧
        v.get? (place ++ [stem ++ ".h.tmp"]) = none)
      (fun v => v = u) := by
  have hloose : ".h.tmp" ∈ loose := by decide
  have hloose' : ".h" ∈ loose := by decide
  have hmarked : ".h.tmp" ∈ [".c.tmp", ".h.tmp"] := by decide
  apply (h.rename hstem hmarked hloose (loose_subset hloose') (by decide) hheader).mono
  · rintro _ _ ⟨hfree, rfl⟩
    refine ⟨(h.put hloose' hfree header).erase hloose (h.free _ hmarked), ?_, ?_, ?_⟩
    · simp [Tree.get?_erase, Tree.get?_put]
    · simp [Tree.get?_erase, Tree.get?_put, hsource]
    · simp [Tree.get?_erase]
  · exact fun _ hv => hv

theorem leaves_moveSource {path : String}
    (h : Pending directory stem place t [".h", ".c.tmp"] u)
    (hheader : u.get? (place ++ [stem ++ ".h"]) = some (.file (Tree.bytesOf code.header)))
    (hsource : u.get? (place ++ [stem ++ ".c.tmp"]) = some (.file (Tree.bytesOf code.source)))
    (hstaged : u.get? (place ++ [stem ++ ".h.tmp"]) = none)
    (hfree : t.hindrance? directory (stem ++ ".h.tmp") place = none) :
    Leaves (Run.change path
        (·.rename (join directory (stem ++ ".c.tmp")) (join directory (stem ++ ".c")))) u
      (fun _ => Paired ⟨join directory (stem ++ ".h"), join directory (stem ++ ".c")⟩ code)
      (fun v => v = u) := by
  have hloose : ".c.tmp" ∈ loose := by decide
  have hmarked : ".c.tmp" ∈ [".h", ".c.tmp"] := by decide
  apply (h.rename hstem hmarked hloose (by decide) (by decide) hsource).mono
  · rintro _ _ ⟨hfree', rfl⟩
    have hall : ∀ ending ∈ Site.endings,
        t.hindrance? directory (stem ++ ending) place = none := by
      intro ending hending
      simp only [Site.endings, List.mem_cons, List.not_mem_nil, or_false] at hending
      rcases hending with rfl | rfl | rfl | rfl
      · exact h.free _ (by decide)
      · exact hfree'
      · exact hfree
      · exact h.free _ hmarked
    have hput := Tree.Keeps.put_file (by simp) (h.ne_directory hfree') (Tree.bytesOf code.source)
    have hnode : (u.put (place ++ [stem ++ ".c"]) (.file (Tree.bytesOf code.source))).get?
        (place ++ [stem ++ ".c.tmp"]) ≠ some .directory := by
      simp [Tree.get?_put, hsource]
    apply paired_of_nodes hstem ((h.reaches.keeps hput).keeps (.erase (by simp) hnode))
      (fun ending hending => (Tree.checkEntry_of_free (hall ending hending)).1)
    · simp [Tree.get?_erase, Tree.get?_put, hheader]
    · simp [Tree.get?_erase, Tree.get?_put]
    · simp [Tree.get?_erase, Tree.get?_put, hstaged]
  · exact fun _ hv => hv

/-- A pair is written, or all that was staged or moved is taken away again. -/
theorem leaves_writePair (h : t.Reaches directory place) (code : GeneratedCode) :
    Leaves (Run.writePair ⟨join directory (stem ++ ".h"), join directory (stem ++ ".c")⟩ code) t
      (fun _ => Paired ⟨join directory (stem ++ ".h"), join directory (stem ++ ".c")⟩ code)
      (Pending directory stem place t []) := by
  unfold Run.writePair
  rw [staging_header hstem, staging_source hstem]
  apply Leaves.bind ((leaves_stage hstem (.refl h)).orElseDo ?_)
  · rintro _ u ⟨hu, hheader, hsource⟩
    apply Leaves.bind ((leaves_moveHeader hstem hu hheader hsource).orElseDo ?_)
    · rintro _ v ⟨hv, hheader, hsource, hstaged⟩
      apply (leaves_moveSource hstem hv hheader hsource hstaged (hu.free _ (by decide))).orElseDo
      -- The source cannot follow: the header is marked too, and goes with what is staged.
      rintro _ rfl
      exact hv.clear hstem (by decide) (by decide) (by simp)
    · rintro _ rfl
      exact hu.clear hstem (by decide) (by decide) (by simp)
  -- One file may be staged, or none; the clean-up is the same.
  · rintro u ⟨marked, hmarked, hu⟩
    exact hu.clear hstem (by decide) (by decide) hmarked

/-- Where the directory is not there, nothing happens. -/
theorem leaves_writePair_of_error {e : FileError}
    (h : t.enter [] (Tree.segments directory) = .error e) (code : GeneratedCode) :
    Leaves (Run.writePair ⟨join directory (stem ++ ".h"), join directory (stem ++ ".c")⟩ code) t
      (fun _ _ => False) (fun u => u = t) := by
  have hlocate : ∀ ending ∈ Site.endings,
      ∃ e, t.locate (join directory (stem ++ ending)) = .error e := by
    intro ending hending
    rw [Tree.locate_join_of_error (plain_ending hstem hending) h]
    cases Tree.checkPath (join directory (stem ++ ending)) with
    | error e => exact ⟨e, rfl⟩
    | ok _ => exact ⟨e, rfl⟩
  have hdiscard : ∀ ending ∈ Site.endings,
      Turns (Run.discard (join directory (stem ++ ending))) t (.ok ()) t := by
    rintro ending hending w rfl
    obtain ⟨e, he⟩ := hlocate ending hending
    refine ⟨Run.outcome_discard _ w, ?_⟩
    rw [Run.tree_discard, Tree.remove, Tree.stat, he]
    rfl
  unfold Run.writePair
  rw [staging_header hstem, staging_source hstem]
  have hwrite : Leaves (Run.writeFile (join directory (stem ++ ".h.tmp")) code.header) t
      (fun _ _ => False) (fun u => u = t) := by
    obtain ⟨e, he⟩ := hlocate ".h.tmp" (by decide)
    apply Leaves.change
    · intro u hu
      rw [Tree.write, he] at hu
      cases hu
    · exact fun _ _ => rfl
  apply Leaves.bind ((hwrite.bind fun _ _ => False.elim).orElseDo ?_) fun _ _ => False.elim
  rintro _ rfl
  exact ⟨_, (hdiscard _ (by decide)).bind (hdiscard _ (by decide)), rfl⟩

end

/-! ## Artifacts -/

/-- The paths of what may be taken away again when artifacts cannot be written. -/
def loosePaths (a : Artifacts) : List String := [a.header, staging a.header, staging a.source]

/-- A later tree in which nothing stands any more where some paths lead, and all else is as before.
Directories stay. -/
structure Clears (paths : List String) (t u : Tree) : Prop where
  stays : ∀ place, t.get? place = some .directory → u.get? place = some .directory
  rest : ∀ place, u.get? place = t.get? place ∨
    (u.get? place = none ∧ ∃ path ∈ paths, u.locate path = .ok ⟨place, false⟩)

section
variable {directory stem : String} {place : Place} {t u : Tree}

theorem mem_loosePaths (hstem : '/' ∉ stem.toList) {path : String} :
    path ∈ loosePaths ⟨join directory (stem ++ ".h"), join directory (stem ++ ".c")⟩ ↔
      ∃ ending ∈ loose, join directory (stem ++ ending) = path := by
  simp [loosePaths, loose, staging_header hstem, staging_source hstem, eq_comm]

theorem Pending.clears (h : Pending directory stem place t [] u) (hstem : '/' ∉ stem.toList) :
    Clears (loosePaths ⟨join directory (stem ++ ".h"), join directory (stem ++ ".c")⟩) t u where
  stays := h.kept.stays
  rest q := by
    by_cases hq : q ∈ loose.map fun ending => place ++ [stem ++ ending]
    · obtain ⟨ending, hending, rfl⟩ := List.mem_map.mp hq
      rcases h.settled ending hending List.not_mem_nil with heq | ⟨hnone, hfree⟩
      · exact .inl heq
      · refine .inr ⟨hnone, _, (mem_loosePaths hstem).mpr ⟨ending, hending, rfl⟩, ?_⟩
        rw [Tree.locate_join h.reaches (plain_ending hstem (loose_subset hending)),
          (Tree.checkEntry_of_free hfree).1]
        rfl
    · exact .inl (h.kept.get?_eq hq List.not_mem_nil)

end

section
variable {directory name backend : String} {code : GeneratedCode} {t u : Tree}

/-- Both artifacts are entries of one directory. -/
theorem exists_of_eq (directory name backend : String) : ∃ front stem, '/' ∉ stem.toList ∧
    of directory name backend = ⟨join front (stem ++ ".h"), join front (stem ++ ".c")⟩ := by
  obtain ⟨front, stem, hstem, hjoin⟩ :=
    Path.exists_stem (outputDirectory directory backend) name
  refine ⟨front, stem, hstem, ?_⟩
  rw [← hjoin ".h" (by decide), ← hjoin ".c" (by decide)]
  rfl

theorem leaves_writePair_of (directory name : String) (code : GeneratedCode) (t : Tree) :
    Leaves (Run.writePair (of directory name code.backend) code) t
      (fun _ => Paired (of directory name code.backend) code)
      (Clears (of directory name code.backend).loosePaths t) := by
  obtain ⟨front, stem, hstem, heq⟩ := exists_of_eq directory name code.backend
  rw [heq]
  cases h : t.enter [] (Tree.segments front) with
  | ok place =>
    exact (leaves_writePair hstem h code).mono (fun _ _ hu => hu) fun _ hu => hu.clears hstem
  | error e =>
    apply (leaves_writePair_of_error hstem h code).mono
    · exact fun _ _ => False.elim
    · rintro _ rfl
      exact ⟨fun _ h => h, fun _ => .inl rfl⟩

/-- What may stand at a place when artifacts could not be written: what stood there before, a
directory on the way to the output, the file that says what to ignore, or nothing, where a staged
file or the header belongs. -/
def Left (directory name backend : String) (t u : Tree) (place : Place) : Prop :=
  u.get? place = t.get? place ∨
    Tree.Opened (Path.ancestors (outputDirectory directory backend)) t u place ∨
    u.stat (ignorePath directory) = .ok (place, .file (Tree.bytesOf ignoreText)) ∨
    (u.get? place = none ∧
      ∃ path ∈ (of directory name backend).loosePaths, u.locate path = .ok ⟨place, false⟩)

/-- A tree that is left when artifacts could not be written. -/
structure Leavings (directory name backend : String) (t u : Tree) : Prop where
  stays : ∀ place, t.get? place = some .directory → u.get? place = some .directory
  left : ∀ place, Left directory name backend t u place

theorem leavings_of_opens (h : t.Opens (Path.ancestors (outputDirectory directory backend)) u) :
    Leavings directory name backend t u where
  stays := h.stays
  left place := (h place).imp_right .inl

theorem leavings_of_clears {u₁ u₂ : Tree} {place : Place}
    (hopens : t.Opens (Path.ancestors (outputDirectory directory backend)) u₁)
    (hkeeps : u₁.Keeps [place] [] u₂)
    (hstat : u₂.stat (ignorePath directory) = .ok (place, .file (Tree.bytesOf ignoreText)))
    (hclears : Clears (of directory name backend).loosePaths u₂ u) :
    Leavings directory name backend t u where
  stays q hq := hclears.stays q (hkeeps.stays q (hopens.stays q hq))
  left q := by
    rcases hclears.rest q with heq | hnone
    · by_cases hq : q = place
      · subst hq
        exact .inr (.inr (.inl (Tree.stat_of_stays hclears.stays hstat heq)))
      · have heq : u.get? q = u₁.get? q :=
          heq.trans (hkeeps.get?_eq (by simpa using hq) List.not_mem_nil)
        rcases hopens q with heq' | hopened
        · exact .inl (heq.trans heq')
        · exact .inr (.inl (hopened.of_stays fun q hq => hclears.stays q (hkeeps.stays q hq)))
    · exact .inr (.inr (.inr hnone))

theorem leaves_writeArtifacts (directory name : String) (code : GeneratedCode) (t : Tree) :
    Leaves (Run.writeArtifacts directory name code) t
      (fun a u => a = of directory name code.backend ∧ a.Paired code u)
      (Leavings directory name code.backend t) := by
  unfold Run.writeArtifacts
  have hmake := Leaves.makeDirectories (outputDirectory directory code.backend) t
  apply Leaves.bind (hmake.mono (fun _ _ h => h) fun _ h => leavings_of_opens h)
  intro _ u₁ hopens
  apply Leaves.bind (Q := fun _ u₂ => ∃ place, u₁.Keeps [place] [] u₂ ∧
    u₂.stat (ignorePath directory) = .ok (place, .file (Tree.bytesOf ignoreText)))
  · apply Leaves.change
    · exact fun _ h => Tree.exists_of_write h
    · exact fun _ _ => leavings_of_opens hopens
  rintro _ u₂ ⟨place, hkeeps, hstat⟩
  apply Leaves.bind ((leaves_writePair_of directory name code u₂).mono (fun _ _ h => h) ?_)
  · intro _ u₃ hpaired
    exact .inl ⟨_, u₃, (Turns.report _ u₃).bind (.pure _ u₃), rfl, hpaired⟩
  · exact fun _ hclears => leavings_of_clears hopens hkeeps hstat hclears

/-! ## The pair or none of it -/

/-- The place of an artifact is neither that of the file that says what to ignore nor that of
another artifact. -/
theorem Left.of_locate {front stem ending : String} {target : Tree.Target}
    (hstem : '/' ∉ stem.toList) (hending : ending ∈ Site.endings)
    (heq : of directory name backend = ⟨join front (stem ++ ".h"), join front (stem ++ ".c")⟩)
    (hlocate : u.locate (join front (stem ++ ending)) = .ok target)
    (h : Left directory name backend t u target.place) :
    u.get? target.place = t.get? target.place ∨
      Tree.Opened (Path.ancestors (outputDirectory directory backend)) t u target.place ∨
      (u.get? target.place = none ∧ ending ∈ loose) := by
  obtain ⟨place, -, -, rfl⟩ := Tree.exists_reaches (plain_ending hstem hending) hlocate
  rcases h with hsame | hopened | hignore | ⟨hnone, path, hpath, hlocate'⟩
  · exact .inl hsame
  · exact .inr (.inl hopened)
  · obtain ⟨target', hlocate', hplace, -⟩ := Tree.exists_of_stat hignore
    have hplain : Plain ".gitignore" := by decide
    obtain ⟨place', -, -, rfl⟩ := Tree.exists_reaches hplain hlocate'
    have hsame : place' = place ∧ ".gitignore" = stem ++ ending := by simpa using hplace
    exact absurd hsame.2.symm (Site.append_ending_ne hending (by decide))
  · rw [heq] at hpath
    obtain ⟨ending', hending', rfl⟩ := (mem_loosePaths hstem).mp hpath
    obtain ⟨place', -, -, hplace⟩ :=
      Tree.exists_reaches (plain_ending hstem (loose_subset hending')) hlocate'
    have hsame : place = place' ∧ ending = ending' := by simpa using hplace
    exact .inr (.inr ⟨hnone, hsame.2 ▸ hending'⟩)

/-- Below the output directory, reached without steps upwards, no directory on the way to it
stands. -/
theorem not_opened {front stem ending : String} {target : Tree.Target}
    (hstem : '/' ∉ stem.toList) (hending : ending ∈ Site.endings)
    (hup : ".." ∉ Tree.segments front)
    (hbelow : Tree.segments (outputDirectory directory backend) <+: Tree.segments front)
    (hlocate : u.locate (join front (stem ++ ending)) = .ok target) :
    ¬ Tree.Opened (Path.ancestors (outputDirectory directory backend)) t u target.place := by
  rintro ⟨-, path, hpath, hstat⟩
  obtain ⟨place, hreach, -, rfl⟩ := Tree.exists_reaches (plain_ending hstem hending) hlocate
  have hway := Path.way_of_mem_ancestors hpath
  have hpathUp : ".." ∉ Tree.segments path := by
    intro hmem
    have hmem : ".." ∈ Path.way path.toList := List.mem_filter.mpr ⟨hmem, by decide⟩
    exact hup (hbelow.subset (List.mem_filter.mp (hway.subset hmem)).1)
  have hlong := (hway.trans (hbelow.filter _)).length_le
  rw [← (Tree.reaches_of_stat hstat).eq_way hpathUp] at hlong
  have hplace : place = (Tree.segments front).filter (· ≠ ".") := hreach.eq_way hup
  rw [← hplace, List.length_append] at hlong
  exact absurd hlong (by simp)

/-- The paths of a pair hold what they held, or nothing where a header or a staged file belongs. -/
structure Restored (a : Artifacts) (t u : Tree) : Prop where
  source : u.node? a.source = t.node? a.source
  loose : ∀ path ∈ a.loosePaths, u.node? path = t.node? path ∨ u.node? path = none

/-- No step of a path leads upwards, and the name of a spec does not lead elsewhere. -/
structure Straight (directory name backend : String) : Prop where
  relative : name.toList.head? ≠ some '/'
  ne_up : ".." ∉ Tree.segments (of directory name backend).source

theorem Straight.segments_below {front stem : String} (h : Straight directory name backend)
    (hstem : '/' ∉ stem.toList)
    (heq : of directory name backend = ⟨join front (stem ++ ".h"), join front (stem ++ ".c")⟩) :
    Tree.segments (outputDirectory directory backend) <+: Tree.segments front := by
  have hrelative : (name ++ ".c").toList.head? ≠ some '/' := fun hhead =>
    h.relative ((Path.head?_append_of_noSlash (by decide) name).mp hhead)
  apply Path.segments_prefix_of_relative hrelative ?_ (plain_ending hstem (by decide))
    (congrArg source heq)
  obtain ⟨front', stem', hstem', hjoin⟩ := Path.exists_stem "" name
  have hsegments := congrArg Tree.segments (hjoin ".c" (by decide))
  rw [Path.segments_join_of_relative hrelative, Path.segments_join
    (plain_ending hstem' (by decide))] at hsegments
  intro hnil
  rw [hnil] at hsegments
  exact List.concat_ne_nil _ _ hsegments.symm

theorem Leavings.restored (h : Leavings directory name backend t u) (hwf : t.WellFormed)
    (hstraight : Straight directory name backend) :
    Restored (of directory name backend) t u := by
  obtain ⟨front, stem, hstem, heq⟩ := exists_of_eq directory name backend
  have hup : ".." ∉ Tree.segments front := by
    have hup := hstraight.ne_up
    rw [heq, Path.segments_join (plain_ending hstem (by decide))] at hup
    exact fun hmem => hup (List.mem_append_left _ hmem)
  have hbelow := hstraight.segments_below hstem heq
  have hnode {ending : String} (hending : ending ∈ Site.endings) :
      u.node? (join front (stem ++ ending)) = t.node? (join front (stem ++ ending)) ∨
        (u.node? (join front (stem ++ ending)) = none ∧ ending ∈ loose) := by
    rcases Tree.node?_cases hwf (plain_ending hstem hending) hup h.stays with
      ⟨hu, ht⟩ | ⟨place, hlocate, hu, ht⟩
    · exact .inl (hu.trans ht.symm)
    · rw [hu, ht]
      rcases (h.left place).of_locate hstem hending heq hlocate with hsame | hopened | hnone
      · exact .inl hsame
      · exact absurd hopened (not_opened hstem hending hup hbelow hlocate)
      · exact .inr hnone
  rw [heq]
  constructor
  · exact (hnode (by decide)).resolve_right fun hnone => absurd hnone.2 (by decide)
  · intro path hpath
    obtain ⟨ending, hending, rfl⟩ := (mem_loosePaths hstem).mp hpath
    exact (hnode (loose_subset hending)).imp_right And.left

/-- What artifacts that could not be written leave of a tree. -/
structure Withdrawn (directory name backend : String) (t u : Tree) : Prop where
  /-- Where the source belongs all is as before, unless the way to the output goes through there. -/
  source : ∀ target, u.locate (of directory name backend).source = .ok target →
    u.get? target.place = t.get? target.place ∨
      Tree.Opened (Path.ancestors (outputDirectory directory backend)) t u target.place
  /-- Where the header and the staged files belong all is as before, or there is nothing. -/
  loose : ∀ path ∈ (of directory name backend).loosePaths, ∀ target,
    u.locate path = .ok target → u.get? target.place = t.get? target.place ∨
      u.get? target.place = none ∨
      Tree.Opened (Path.ancestors (outputDirectory directory backend)) t u target.place
  left : ∀ place, Left directory name backend t u place
  restored : t.WellFormed → Straight directory name backend →
    Restored (of directory name backend) t u

theorem Leavings.withdrawn (h : Leavings directory name backend t u) :
    Withdrawn directory name backend t u := by
  obtain ⟨front, stem, hstem, heq⟩ := exists_of_eq directory name backend
  refine ⟨fun target hlocate => ?_, fun path hpath target hlocate => ?_, h.left, h.restored⟩
  · rw [heq] at hlocate
    rcases (h.left target.place).of_locate hstem (by decide) heq hlocate with
      hsame | hopened | ⟨-, hloose⟩
    · exact .inl hsame
    · exact .inr hopened
    · exact absurd hloose (by decide)
  · rw [heq] at hpath
    obtain ⟨ending, hending, rfl⟩ := (mem_loosePaths hstem).mp hpath
    rcases (h.left target.place).of_locate hstem (loose_subset hending) heq hlocate with
      hsame | hopened | ⟨hnone, -⟩
    · exact .inl hsame
    · exact .inr (.inr hopened)
    · exact .inr (.inl hnone)

end

/-- Artifacts are written as a pair or not at all. After a success both files are there and nothing
is staged. After a failure the source is as it was, the header and the staged files are as they were
or absent, and nothing else is new but the directories of the output and the file that says what to
ignore. -/
theorem paired_or_withdrawn (directory name : String) (code : GeneratedCode) (w : World) :
    (∀ a, (Run.writeArtifacts directory name code).outcome w = .ok a →
      a = of directory name code.backend ∧
        a.Paired code ((Run.writeArtifacts directory name code).after w).tree) ∧
    ∀ e, (Run.writeArtifacts directory name code).outcome w = .error e →
      Withdrawn directory name code.backend w.tree
        ((Run.writeArtifacts directory name code).after w).tree := by
  rcases leaves_writeArtifacts directory name code w.tree with
    ⟨a, u, hturns, hpaired⟩ | ⟨e, u, hturns, hleavings⟩
  · obtain ⟨houtcome, htree⟩ := hturns w rfl
    rw [houtcome, htree]
    refine ⟨fun a' ha => ?_, nofun⟩
    cases ha
    exact hpaired
  · obtain ⟨houtcome, htree⟩ := hturns w rfl
    rw [houtcome, htree]
    exact ⟨nofun, fun _ _ => hleavings.withdrawn⟩

/-- A directory in place of the header, beside an old source and an old staged file. -/
theorem withdrawn_from_directory :
    let x := Run.writeArtifacts "p" "n" ⟨"nif", "h", "s"⟩
    let w : World := { tree := ⟨[(["p"], .directory), (["p", "_generated"], .directory),
      (["p", "_generated", "nif"], .directory), (["p", "_generated", "nif", "n.h"], .directory),
      (["p", "_generated", "nif", "n.c"], .file [1]),
      (["p", "_generated", "nif", "n.c.tmp"], .file [2])]⟩ }
    ∃ e, x.outcome w = .error e ∧ w.tree.WellFormed ∧ Straight "p" "n" "nif" ∧
      Withdrawn "p" "n" "nif" w.tree (x.after w).tree ∧
      Restored (of "p" "n" "nif") w.tree (x.after w).tree := by
  intro x w
  have hfails : (x.outcome w).toOption = none := by decide +kernel
  have hwf : w.tree.WellFormed := Tree.wellFormed_of_nodes (by decide +kernel)
  have hstraight : Straight "p" "n" "nif" := ⟨by decide, by decide +kernel⟩
  cases he : x.outcome w with
  | ok a =>
    rw [he] at hfails
    cases hfails
  | error e =>
    have hwithdrawn := (paired_or_withdrawn "p" "n" ⟨"nif", "h", "s"⟩ w).2 e he
    exact ⟨e, rfl, hwf, hstraight, hwithdrawn, hwithdrawn.restored hwf hstraight⟩

/-- Where a path leads upwards, or a name leads elsewhere, the way to the output can go through the
place of the source, and a path can lead to an old source that it did not lead to before. -/
theorem source_on_the_way :
    (∀ i ∈ [("p", "../n", "n.c"), ("x/n.c", "/x/n", "nif")],
      let x := Run.writeArtifacts i.1 i.2.1 ⟨i.2.2, "h", "s"⟩
      let source := (of i.1 i.2.1 i.2.2).source
      (x.outcome {}).toOption = none ∧ Tree.node? {} source = none ∧
        (x.after {}).tree.node? source = some .directory) ∧
    let x := Run.writeArtifacts "a/../b" "n" ⟨"nif", "h", "s"⟩
    let w : World := { tree := ⟨[(["b"], .directory), (["b", "_generated"], .directory),
      (["b", "_generated", "nif"], .directory), (["b", "_generated", "nif", "n.h"], .directory),
      (["b", "_generated", "nif", "n.c"], .file [1])]⟩ }
    let source := (of "a/../b" "n" "nif").source
    (x.outcome w).toOption = none ∧ w.tree.node? source = none ∧
      (x.after w).tree.node? source = some (.file [1]) := by
  decide +kernel

end Artifacts

end NativeInterface
