import NativeInterface.Proofs.Edits
import NativeInterface.Proofs.LocalRuns

/-!
# What a spec does to a tree

Compiling a spec and writing its artifacts comes down to a plan: some edits and an outcome
(`Site.turns_generateSpec`). A plan depends on the code, and on what is in the way of it:
directories at the places of files, and files at the places of directories. No spec ever puts
anything in the way of another one or of itself, so its plan stays the same throughout a run
(`Site.plan_of_keeps`).
-/

namespace NativeInterface
open NativeInterface.Path (Plain join)

namespace Run

/-! ## Runs on a tree -/

/-- From a tree, whatever else there is in the world, a run has an outcome and leaves a tree. -/
def Turns {α : Type} (x : Run α) (t : Tree) (o : Except Failure α) (t' : Tree) : Prop :=
  ∀ w : World, w.tree = t → x.outcome w = o ∧ (x.after w).tree = t'

namespace Turns
variable {α β : Type} {x : Run α} {f : α → Run β} {t t₁ t₂ : Tree} {a : α} {e : Failure}
  {o : Except Failure β}

theorem pure (a : α) (t : Tree) : Turns (pure a) t (.ok a) t := fun _ hw => ⟨rfl, hw⟩

theorem throw (e : Failure) (t : Tree) : Turns (throw e : Run α) t (.error e) t :=
  fun _ hw => ⟨rfl, hw⟩

theorem report (events : List Event) (t : Tree) : Turns (report events) t (.ok ()) t :=
  fun _ hw => ⟨rfl, hw⟩

theorem bind (hx : Turns x t (.ok a) t₁) (hf : Turns (f a) t₁ o t₂) : Turns (x >>= f) t o t₂ := by
  intro w hw
  obtain ⟨houtcome, htree⟩ := hx w hw
  rw [outcome_bind_of_ok houtcome, after_bind_of_ok houtcome]
  exact hf _ htree

theorem bind_of_error (hx : Turns x t (.error e) t₁) : Turns (x >>= f) t (.error e) t₁ := by
  intro w hw
  obtain ⟨houtcome, htree⟩ := hx w hw
  rw [outcome_bind_of_error houtcome, after_bind_of_error houtcome]
  exact ⟨rfl, htree⟩

theorem orElseDo {cleanup : Run Unit} (hx : Turns x t (.ok a) t₁) :
    Turns (orElseDo x cleanup) t (.ok a) t₁ := by
  intro w hw
  obtain ⟨houtcome, htree⟩ := hx w hw
  rw [Run.orElseDo, outcome_tryCatch_of_ok houtcome, after_tryCatch_of_ok houtcome]
  exact ⟨rfl, htree⟩

theorem orElseDo_of_error {cleanup : Run Unit} (hx : Turns x t (.error e) t₁)
    (hcleanup : Turns cleanup t₁ (.ok ()) t₂) : Turns (Run.orElseDo x cleanup) t (.error e) t₂ := by
  intro w hw
  obtain ⟨houtcome, htree⟩ := hx w hw
  rw [Run.orElseDo, outcome_tryCatch_of_error houtcome, after_tryCatch_of_error houtcome]
  exact (hcleanup.bind (.throw e t₂)) _ htree

section
variable {path : String} {operation : Tree → Except FileError Tree}

theorem change (h : operation t = .ok t₁) : Turns (change path operation) t (.ok ()) t₁ := by
  rintro w rfl
  unfold outcome after
  rw [run_change, h]
  exact ⟨rfl, rfl⟩

theorem change_of_error {e : FileError} (h : operation t = .error e) :
    Turns (Run.change path operation) t (.error (.access path e)) t := by
  rintro w rfl
  unfold outcome after
  rw [run_change, h]
  exact ⟨rfl, rfl⟩

end

theorem makeDirectories (path : String) (t : Tree) :
    Turns (makeDirectories path) t
      (match (t.makeDirectories path).error with
        | none => .ok ()
        | some e => .error (.access path e)) (t.makeDirectories path).tree := by
  rintro w rfl
  unfold outcome after
  rw [run_makeDirectories]
  exact ⟨rfl, rfl⟩

end Turns

end Run

/-! ## What is in the way -/

namespace Tree

/-- What keeps a file from being written as an entry of a directory, which leads to a place. -/
def hindrance? (t : Tree) (directory name : String) (place : Place) : Option FileError :=
  match checkEntry directory name with
  | .error e => some e
  | .ok () => if t.get? (place ++ [name]) = some .directory then some .isADirectory else none

section
variable {t t' : Tree} {directory name name' path : String} {place : Place} {e : FileError}

theorem hindrance?_of_keeps {files directories : List Place} (h : t.Keeps files directories t')
    (hplace : place ++ [name] ∉ directories) :
    t'.hindrance? directory name place = t.hindrance? directory name place := by
  unfold hindrance?
  simp only [h.directory _ hplace]

theorem checkEntry_of_free (h : t.hindrance? directory name place = none) :
    checkEntry directory name = .ok () ∧ t.get? (place ++ [name]) ≠ some .directory := by
  unfold hindrance? at h
  split at h
  · cases h
  · rename_i hentry
    split at h
    · cases h
    · rename_i hnode
      exact ⟨hentry, hnode⟩

theorem write_of_hindrance? (h : t.Reaches directory place) (hname : Plain name)
    (bytes : List UInt8) : t.write (join directory name) bytes =
      match t.hindrance? directory name place with
      | some e => .error e
      | none => .ok (t.put (place ++ [name]) (.file bytes)) := by
  rw [write_join h hname, hindrance?]
  cases checkEntry directory name with
  | error e => rfl
  | ok _ =>
    dsimp only [bind, Except.bind]
    split <;> rfl

theorem rename_of_hindrance? {bytes : List UInt8} (h : t.Reaches directory place)
    (hname : Plain name) (hname' : Plain name') (hne : name ≠ name')
    (hfree : t.hindrance? directory name place = none)
    (hnode : t.get? (place ++ [name]) = some (.file bytes)) :
    t.rename (join directory name) (join directory name') =
      match t.hindrance? directory name' place with
      | some e => .error e
      | none => .ok ((t.put (place ++ [name']) (.file bytes)).erase (place ++ [name])) := by
  rw [rename_join h hname hname' hne, (checkEntry_of_free hfree).1, hnode, hindrance?]
  dsimp only [bind, Except.bind]
  cases checkEntry directory name' with
  | error e => rfl
  | ok _ =>
    dsimp only
    split <;> rfl

/-- What cannot be removed stays, and what is not there need not be removed. -/
theorem turns_discard (h : t.Reaches directory place) (hname : Plain name) :
    Run.Turns (Run.discard (join directory name)) t (.ok ())
      (if (t.hindrance? directory name place).isNone then t.erase (place ++ [name]) else t) := by
  rintro w rfl
  refine ⟨Run.outcome_discard _ w, ?_⟩
  rw [Run.tree_discard, remove_join h hname, hindrance?]
  cases checkEntry directory name with
  | error e => rfl
  | ok _ =>
    dsimp only [bind, Except.bind]
    rcases hnode : w.tree.get? (place ++ [name]) with _ | _ | bytes
    · exact (erase_of_get? (by simp) hnode).symm
    · rfl
    · rfl

end

end Tree

namespace Site
open Run (Turns)
variable {s s' : Site} {backend ending ending' : String} {code : GeneratedCode} {t t₀ t' : Tree}

/-- What keeps an artifact from being written. -/
def hindrance? (s : Site) (backend : String) (t : Tree) (ending : String) : Option FileError :=
  t.hindrance? (Artifacts.outputDirectory s.directory backend) (s.name ++ ending) (s.output backend)

/-- An artifact can be written. -/
def isFree (s : Site) (backend : String) (t : Tree) (ending : String) : Bool :=
  (s.hindrance? backend t ending).isNone

theorem artifact_ne_artifact (h : ending ∈ endings) (h' : ending' ∈ endings)
    (hne : ending ≠ ending') : s.artifact backend ending ≠ s.artifact backend ending' := fun heq =>
  hne (append_ending_inj h h' (List.singleton_inj.mp (List.append_cancel_left heq))).2

/-! ## Files -/

/-- A tree on the way from another one, with the output directory there and other artifacts in it at
most. -/
structure Ready (s : Site) (backend : String) (t₀ t : Tree) : Prop where
  reaches : t.Reaches (Artifacts.outputDirectory s.directory backend) (s.output backend)
  kept : t₀.Keeps (s.artifacts backend) [] t

namespace Ready
variable (h : s.Ready backend t₀ t)
include h

theorem hindrance?_eq (ending : String) :
    s.hindrance? backend t ending = s.hindrance? backend t₀ ending :=
  Tree.hindrance?_of_keeps h.kept List.not_mem_nil

theorem ne_directory (hfree : s.hindrance? backend t₀ ending = none) :
    t.get? (s.artifact backend ending) ≠ some .directory :=
  (Tree.checkEntry_of_free ((h.hindrance?_eq ending).trans hfree)).2

variable (hending : ending ∈ endings)
include hending

theorem step (hkeeps : t.Keeps [s.artifact backend ending] [] t') : s.Ready backend t₀ t' where
  reaches := h.reaches.keeps hkeeps
  kept := h.kept.trans (hkeeps.mono
    (List.cons_subset.mpr ⟨artifact_mem_artifacts hending, List.nil_subset _⟩) (List.nil_subset _))

theorem write_eq (bytes : List UInt8) : t.write (s.path backend ending) bytes =
    match s.hindrance? backend t₀ ending with
    | some e => .error e
    | none => .ok (t.put (s.artifact backend ending) (.file bytes)) := by
  rw [path, Tree.write_of_hindrance? h.reaches (s.plain_artifact hending), ← hindrance?,
    h.hindrance?_eq]
  rfl

theorem write_of_some {e : FileError} (he : s.hindrance? backend t₀ ending = some e)
    (text : String) : Turns (Run.writeFile (s.path backend ending) text) t
      (.error (.access (s.path backend ending) e)) t :=
  .change_of_error (by rw [h.write_eq hending, he])

/-- What cannot be taken away stays. -/
theorem discard : Turns (Run.discard (s.path backend ending)) t (.ok ())
    (if s.isFree backend t₀ ending then t.erase (s.artifact backend ending) else t) := by
  have hturns := Tree.turns_discard h.reaches (s.plain_artifact hending)
  rwa [← hindrance?, h.hindrance?_eq] at hturns

section
variable (hfree : s.hindrance? backend t₀ ending = none)
include hfree

theorem put (bytes : List UInt8) :
    s.Ready backend t₀ (t.put (s.artifact backend ending) (.file bytes)) :=
  h.step hending (.put_file (s.artifact_ne_nil _ _) (h.ne_directory hfree) bytes)

theorem erase : s.Ready backend t₀ (t.erase (s.artifact backend ending)) :=
  h.step hending (.erase (s.artifact_ne_nil _ _) (h.ne_directory hfree))

theorem write (text : String) : Turns (Run.writeFile (s.path backend ending) text) t (.ok ())
    (t.put (s.artifact backend ending) (.file (Tree.bytesOf text))) :=
  .change (by rw [h.write_eq hending, hfree])

theorem discard_of_none : Turns (Run.discard (s.path backend ending)) t (.ok ())
    (t.erase (s.artifact backend ending)) := by
  have hturns := h.discard hending
  rwa [isFree, hfree] at hturns

end

section
variable {bytes : List UInt8} (hending' : ending' ∈ endings) (hne : ending ≠ ending')
  (hfree : s.hindrance? backend t₀ ending = none)
  (hnode : t.get? (s.artifact backend ending) = some (.file bytes))
include hending' hne hfree hnode

theorem rename_eq : t.rename (s.path backend ending) (s.path backend ending') =
    match s.hindrance? backend t₀ ending' with
    | some e => .error e
    | none => .ok ((t.put (s.artifact backend ending') (.file bytes)).erase
      (s.artifact backend ending)) := by
  have hname : s.name ++ ending ≠ s.name ++ ending' := fun heq =>
    hne (append_ending_inj hending hending' heq).2
  rw [← h.hindrance?_eq]
  exact Tree.rename_of_hindrance? h.reaches (s.plain_artifact hending) (s.plain_artifact hending')
    hname ((h.hindrance?_eq ending).trans hfree) hnode

theorem rename (hfree' : s.hindrance? backend t₀ ending' = none) (path : String) :
    Turns (Run.change path (·.rename (s.path backend ending) (s.path backend ending'))) t (.ok ())
      ((t.put (s.artifact backend ending') (.file bytes)).erase (s.artifact backend ending)) := by
  refine .change ?_
  rw [h.rename_eq hending hending' hne hfree hnode, hfree']

theorem rename_of_some {e : FileError} (he : s.hindrance? backend t₀ ending' = some e)
    (path : String) :
    Turns (Run.change path (·.rename (s.path backend ending) (s.path backend ending'))) t
      (.error (.access path e)) t := by
  refine .change_of_error ?_
  rw [h.rename_eq hending hending' hne hfree hnode, he]

end

end Ready

/-! ## Pairs -/

/-- The artifacts that are changed: staged ones are never left behind, and the pair is touched when
the header can be written. -/
def touched (s : Site) (backend : String) (t : Tree) : List String :=
  [".h.tmp", ".c.tmp"].filter (s.isFree backend t)
    ++ if [".h.tmp", ".c.tmp", ".h"].all (s.isFree backend t)
      then [".h", ".c"].filter (s.isFree backend t) else []

/-- What stands at the place of an artifact in the end, if it is changed. A header is not left
without its source. -/
def final (s : Site) (code : GeneratedCode) (t : Tree) (ending : String) : Option Node :=
  if ending = ".c" then some (.file (Tree.bytesOf code.source))
  else if ending = ".h" ∧ s.isFree code.backend t ".c" then
    some (.file (Tree.bytesOf code.header))
  else none

def pairEdits (s : Site) (code : GeneratedCode) (t : Tree) : List Tree.Edit :=
  (s.touched code.backend t).map fun ending =>
    ⟨s.output code.backend, s.name ++ ending, s.final code t ending⟩

/-- The first hindrance on the way to a pair. -/
def refusal? (s : Site) (backend : String) (t : Tree) : Option Failure :=
  [".h.tmp", ".c.tmp", ".h", ".c"].findSome? fun ending =>
    (s.hindrance? backend t ending).map (.access (s.path backend ending))

/-- The edits that take staged artifacts away. -/
def staged (s : Site) (backend : String) (t : Tree) : List Tree.Edit :=
  ([".h.tmp", ".c.tmp"].filter (s.isFree backend t)).map fun ending =>
    ⟨s.output backend, s.name ++ ending, none⟩

theorem pairEdits_eq (s : Site) (code : GeneratedCode) (t : Tree) :
    s.pairEdits code t = s.staged code.backend t
      ++ if [".h.tmp", ".c.tmp", ".h"].all (s.isFree code.backend t)
        then ([".h", ".c"].filter (s.isFree code.backend t)).map fun ending =>
          ⟨s.output code.backend, s.name ++ ending, s.final code t ending⟩
        else [] := by
  have hstaged : ∀ ending ∈ [".h.tmp", ".c.tmp"].filter (s.isFree code.backend t),
      s.final code t ending = none := by
    intro ending hending
    have hmem := (List.mem_filter.mp hending).1
    simp only [List.mem_cons, List.not_mem_nil, or_false] at hmem
    rcases hmem with rfl | rfl
    · simp [final]
    · simp [final]
  rw [pairEdits, touched, List.map_append, staged]
  congr 1
  · exact List.map_congr_left fun ending hending => by rw [hstaged ending hending]
  · split <;> rfl

theorem Ready.discard_staged (h : s.Ready backend t₀ t) :
    Turns (do Run.discard (s.path backend ".h.tmp"); Run.discard (s.path backend ".c.tmp")) t
      (.ok ()) (t.edits (s.staged backend t₀)) := by
  have hready : s.Ready backend t₀
      (if s.isFree backend t₀ ".h.tmp" then t.erase (s.artifact backend ".h.tmp") else t) := by
    split
    · rename_i hfree
      exact h.erase (by decide) (Option.isNone_iff_eq_none.mp hfree)
    · exact h
  have hedits : t.edits (s.staged backend t₀) =
      let t' := if s.isFree backend t₀ ".h.tmp" then t.erase (s.artifact backend ".h.tmp") else t
      if s.isFree backend t₀ ".c.tmp" then t'.erase (s.artifact backend ".c.tmp") else t' := by
    simp only [staged, List.filter_cons, List.filter_nil]
    split <;> split <;> rfl
  rw [hedits]
  exact .bind (h.discard (by decide)) (hready.discard (by decide))

/-- What is staged is taken away whole. -/
theorem edits_staged_put {ending : String} (hending : ending ∈ [".h.tmp", ".c.tmp"])
    (hfree : s.hindrance? backend t₀ ending = none) (t : Tree) (node : Node) :
    (t.put (s.artifact backend ending) node).edits (s.staged backend t₀) =
      t.edits (s.staged backend t₀) := by
  simp only [List.mem_cons, List.not_mem_nil, or_false] at hending
  rcases hending with rfl | rfl
  · have hstaged : s.staged backend t₀ = ⟨s.output backend, s.name ++ ".h.tmp", none⟩
        :: ([".c.tmp"].filter (s.isFree backend t₀)).map fun ending =>
          ⟨s.output backend, s.name ++ ending, none⟩ := by
      simp [staged, isFree, hfree]
    rw [hstaged, Tree.edits_cons, Tree.edits_cons]
    exact congrArg (Tree.edits · _) (Tree.erase_put_self ..)
  · have hne : s.artifact backend ".c.tmp" ≠ s.artifact backend ".h.tmp" :=
      artifact_ne_artifact (by decide) (by decide) (by decide)
    cases hother : s.hindrance? backend t₀ ".h.tmp" with
    | some e =>
      have hstaged : s.staged backend t₀ =
          [⟨s.output backend, s.name ++ ".c.tmp", none⟩] := by
        simp [staged, isFree, hfree, hother]
      rw [hstaged]
      exact Tree.erase_put_self ..
    | none =>
      have hstaged : s.staged backend t₀ = [⟨s.output backend, s.name ++ ".h.tmp", none⟩,
          ⟨s.output backend, s.name ++ ".c.tmp", none⟩] := by
        simp [staged, isFree, hfree, hother]
      rw [hstaged]
      show ((t.put (s.artifact backend ".c.tmp") node).erase (s.artifact backend ".h.tmp")).erase
        (s.artifact backend ".c.tmp") = _
      rw [Tree.erase_put_of_ne hne, Tree.erase_put_self]
      rfl

theorem writePair_eq (s : Site) (backend : String) (code : GeneratedCode) :
    Run.writePair (.of s.directory s.name backend) code = (do
      Run.orElseDo
        (do
          Run.writeFile (s.path backend ".h.tmp") code.header
          Run.writeFile (s.path backend ".c.tmp") code.source)
        (do Run.discard (s.path backend ".h.tmp"); Run.discard (s.path backend ".c.tmp"))
      Run.orElseDo
        (Run.change (s.path backend ".h")
          (·.rename (s.path backend ".h.tmp") (s.path backend ".h")))
        (do Run.discard (s.path backend ".h.tmp"); Run.discard (s.path backend ".c.tmp"))
      Run.orElseDo
        (Run.change (s.path backend ".c")
          (·.rename (s.path backend ".c.tmp") (s.path backend ".c")))
        (do Run.discard (s.path backend ".c.tmp"); Run.discard (s.path backend ".h"))) := by
  unfold Run.writePair
  rw [header_of, source_of, staging_path s _ (by decide), staging_path s _ (by decide)]
  rfl

/-- The tree with both files of a pair staged. -/
def stage (s : Site) (backend : String) (code : GeneratedCode) (t : Tree) : Tree :=
  (t.put (s.artifact backend ".h.tmp") (.file (Tree.bytesOf code.header))).put
    (s.artifact backend ".c.tmp") (.file (Tree.bytesOf code.source))

theorem get?_stage (s : Site) (backend : String) (code : GeneratedCode) (t : Tree) :
    (s.stage backend code t).get? (s.artifact backend ".h.tmp") =
        some (.file (Tree.bytesOf code.header)) ∧
      (s.stage backend code t).get? (s.artifact backend ".c.tmp") =
        some (.file (Tree.bytesOf code.source)) := by
  have hne : s.artifact backend ".h.tmp" ≠ s.artifact backend ".c.tmp" :=
    artifact_ne_artifact (by decide) (by decide) (by decide)
  unfold stage
  rw [Tree.get?_put (s.artifact_ne_nil _ _), if_neg hne, Tree.get?_put (s.artifact_ne_nil _ _),
    if_pos rfl, Tree.get?_put (s.artifact_ne_nil _ _), if_pos rfl]
  exact ⟨rfl, rfl⟩

/-- The tree with the header in place and the source still staged. -/
def half (s : Site) (backend : String) (code : GeneratedCode) (t : Tree) : Tree :=
  ((s.stage backend code t).put (s.artifact backend ".h") (.file (Tree.bytesOf code.header))).erase
    (s.artifact backend ".h.tmp")

theorem get?_half (s : Site) (backend : String) (code : GeneratedCode) (t : Tree) :
    (s.half backend code t).get? (s.artifact backend ".c.tmp") =
      some (.file (Tree.bytesOf code.source)) := by
  have hne : s.artifact backend ".c.tmp" ≠ s.artifact backend ".h.tmp" :=
    artifact_ne_artifact (by decide) (by decide) (by decide)
  have hne' : s.artifact backend ".c.tmp" ≠ s.artifact backend ".h" :=
    artifact_ne_artifact (by decide) (by decide) (by decide)
  rw [half, Tree.get?_erase (s.artifact_ne_nil _ _), if_neg hne,
    Tree.get?_put (s.artifact_ne_nil _ _), if_neg hne', (get?_stage s backend code t).2]

theorem erase_half (s : Site) (backend : String) (code : GeneratedCode) (t : Tree) :
    (s.half backend code t).erase (s.artifact backend ".c.tmp") =
      ((t.erase (s.artifact backend ".h.tmp")).erase (s.artifact backend ".c.tmp")).put
        (s.artifact backend ".h") (.file (Tree.bytesOf code.header)) := by
  have hheader : s.artifact backend ".h" ≠ s.artifact backend ".h.tmp" :=
    artifact_ne_artifact (by decide) (by decide) (by decide)
  have hheader' : s.artifact backend ".h" ≠ s.artifact backend ".c.tmp" :=
    artifact_ne_artifact (by decide) (by decide) (by decide)
  have hsource : s.artifact backend ".c.tmp" ≠ s.artifact backend ".h.tmp" :=
    artifact_ne_artifact (by decide) (by decide) (by decide)
  rw [half, stage, Tree.erase_put_of_ne hheader, Tree.erase_put_of_ne hsource, Tree.erase_put_self,
    Tree.erase_put_of_ne hheader', Tree.erase_put_self]

section
variable (h : s.Ready backend t t)
include h

theorem writePair_of_stagedHeader {e : FileError}
    (he : s.hindrance? backend t ".h.tmp" = some e) :
    Turns (Run.writePair (.of s.directory s.name backend) code) t
      (.error (.access (s.path backend ".h.tmp") e)) (t.edits (s.staged backend t)) := by
  rw [writePair_eq]
  exact .bind_of_error (.orElseDo_of_error (.bind_of_error (h.write_of_some (by decide) he _))
    h.discard_staged)

variable (hheader : s.hindrance? backend t ".h.tmp" = none)
include hheader

theorem writePair_of_stagedSource {e : FileError}
    (he : s.hindrance? backend t ".c.tmp" = some e) :
    Turns (Run.writePair (.of s.directory s.name backend) code) t
      (.error (.access (s.path backend ".c.tmp") e)) (t.edits (s.staged backend t)) := by
  have hput := h.put (by decide) hheader (Tree.bytesOf code.header)
  have hdiscard := hput.discard_staged
  rw [edits_staged_put (by decide) hheader] at hdiscard
  rw [writePair_eq]
  exact .bind_of_error (.orElseDo_of_error ((h.write (by decide) hheader _).bind
    (hput.write_of_some (by decide) he _)) hdiscard)

variable (hsource : s.hindrance? backend t ".c.tmp" = none)
include hsource

theorem ready_stage : s.Ready backend t (s.stage backend code t) :=
  (h.put (by decide) hheader _).put (by decide) hsource _

theorem turns_stage {cleanup : Run Unit} :
    Turns (Run.orElseDo (do
        Run.writeFile (s.path backend ".h.tmp") code.header
        Run.writeFile (s.path backend ".c.tmp") code.source) cleanup) t (.ok ())
      (s.stage backend code t) :=
  .orElseDo ((h.write (by decide) hheader _).bind
    ((h.put (by decide) hheader _).write (by decide) hsource _))

theorem writePair_of_header {e : FileError} (he : s.hindrance? backend t ".h" = some e) :
    Turns (Run.writePair (.of s.directory s.name backend) code) t
      (.error (.access (s.path backend ".h") e)) (t.edits (s.staged backend t)) := by
  have hready : s.Ready backend t (s.stage backend code t) := ready_stage h hheader hsource
  have hmove := hready.rename_of_some (by decide) (by decide) (by decide) hheader
    (get?_stage s backend code t).1 he (s.path backend ".h")
  have hdiscard := hready.discard_staged
  rw [stage, edits_staged_put (by decide) hsource, edits_staged_put (by decide) hheader] at hdiscard
  rw [writePair_eq]
  exact .bind (turns_stage h hheader hsource)
    (.bind_of_error (.orElseDo_of_error hmove hdiscard))

variable (hfree : s.hindrance? backend t ".h" = none)
include hfree

theorem ready_half : s.Ready backend t (s.half backend code t) :=
  ((ready_stage h hheader hsource).put (by decide) hfree _).erase (by decide) hheader

theorem turns_half {cleanup : Run Unit} :
    Turns (Run.orElseDo (Run.change (s.path backend ".h")
        (·.rename (s.path backend ".h.tmp") (s.path backend ".h"))) cleanup)
      (s.stage backend code t) (.ok ()) (s.half backend code t) :=
  .orElseDo ((ready_stage h hheader hsource).rename (by decide) (by decide) (by decide) hheader
    (get?_stage s backend code t).1 hfree _)

/-- A header whose source cannot follow is taken away again. -/
theorem writePair_of_source {e : FileError} (he : s.hindrance? backend t ".c" = some e) :
    Turns (Run.writePair (.of s.directory s.name backend) code) t
      (.error (.access (s.path backend ".c") e))
      (t.edits [⟨s.output backend, s.name ++ ".h.tmp", none⟩,
        ⟨s.output backend, s.name ++ ".c.tmp", none⟩,
        ⟨s.output backend, s.name ++ ".h", none⟩]) := by
  have hready : s.Ready backend t (s.half backend code t) := ready_half h hheader hsource hfree
  have hmove := hready.rename_of_some (by decide) (by decide) (by decide) hsource
    (get?_half s backend code t) he (s.path backend ".c")
  have hdiscard := (hready.erase (by decide) hsource).discard_of_none (by decide) hfree
  rw [erase_half, Tree.erase_put_self] at hdiscard
  rw [writePair_eq]
  refine .bind (turns_stage h hheader hsource) (.bind (turns_half h hheader hsource hfree)
    (.orElseDo_of_error hmove (.bind (hready.discard_of_none (by decide) hsource) ?_)))
  rw [erase_half]
  exact hdiscard

theorem writePair_of_free (hfree' : s.hindrance? backend t ".c" = none) :
    Turns (Run.writePair (.of s.directory s.name backend) code) t (.ok ())
      (t.edits [⟨s.output backend, s.name ++ ".h.tmp", none⟩,
        ⟨s.output backend, s.name ++ ".c.tmp", none⟩,
        ⟨s.output backend, s.name ++ ".h", some (.file (Tree.bytesOf code.header))⟩,
        ⟨s.output backend, s.name ++ ".c", some (.file (Tree.bytesOf code.source))⟩]) := by
  have hne : s.artifact backend ".c" ≠ s.artifact backend ".c.tmp" :=
    artifact_ne_artifact (by decide) (by decide) (by decide)
  have hready : s.Ready backend t (s.half backend code t) := ready_half h hheader hsource hfree
  have hmove := hready.rename (by decide) (by decide) (by decide) hsource
    (get?_half s backend code t) hfree' (s.path backend ".c")
  rw [Tree.erase_put_of_ne hne, erase_half] at hmove
  rw [writePair_eq]
  exact .bind (turns_stage h hheader hsource) (.bind (turns_half h hheader hsource hfree)
    (.orElseDo hmove))

end

theorem turns_writePair (h : s.Ready code.backend t t) :
    Turns (Run.writePair (.of s.directory s.name code.backend) code) t
      (match s.refusal? code.backend t with
        | some e => .error e
        | none => .ok ()) (t.edits (s.pairEdits code t)) := by
  rw [pairEdits_eq, refusal?]
  cases hheader : s.hindrance? code.backend t ".h.tmp" with
  | some e => simpa [isFree, hheader] using writePair_of_stagedHeader h hheader
  | none =>
    cases hsource : s.hindrance? code.backend t ".c.tmp" with
    | some e => simpa [isFree, hheader, hsource] using writePair_of_stagedSource h hheader hsource
    | none =>
      cases hfree : s.hindrance? code.backend t ".h" with
      | some e =>
        simpa [isFree, hheader, hsource, hfree] using writePair_of_header h hheader hsource hfree
      | none =>
        cases hfree' : s.hindrance? code.backend t ".c" with
        | some e =>
          simpa [staged, final, isFree, hheader, hsource, hfree, hfree'] using
            writePair_of_source h hheader hsource hfree hfree'
        | none =>
          simpa [staged, final, isFree, hheader, hsource, hfree, hfree'] using
            writePair_of_free h hheader hsource hfree hfree'

/-! ## Plans -/

end Site

/-- What becomes of a tree, and what comes out of that. -/
structure Plan (α : Type) where
  edits : List Tree.Edit
  outcome : Except Failure α

namespace Site
open Run (Turns)
variable {s s' : Site} {backend ending : String} {code : GeneratedCode} {t t' : Tree}

/-- The edits that make the output directories. -/
def openEdits (s : Site) (backend : String) : List Tree.Edit :=
  [⟨s.place, generatedName, some .directory⟩, ⟨s.generated, backend, some .directory⟩]

/-- The edit that says what to ignore. -/
def ignoreEdit (s : Site) : Tree.Edit :=
  ⟨s.generated, ".gitignore", some (.file (Tree.bytesOf Artifacts.ignoreText))⟩

/-- What keeps the list of what to ignore from being written. -/
def ignoreHindrance? (s : Site) (t : Tree) : Option FileError :=
  t.hindrance? (Artifacts.generatedDirectory s.directory) ".gitignore" s.generated

/-- What writing the artifacts of a spec comes down to. -/
def plan (s : Site) (code : GeneratedCode) (t : Tree) : Plan Artifacts :=
  let out := Artifacts.outputDirectory s.directory code.backend
  match Tree.checkPath out with
  | .error e => ⟨[], .error (.access out e)⟩
  | .ok () =>
    if t.hasFile s.generated then ⟨[], .error (.access out .notADirectory)⟩
    else if t.hasFile (s.output code.backend) then
      ⟨[⟨s.place, generatedName, some .directory⟩], .error (.access out .alreadyExists)⟩
    else match s.ignoreHindrance? t with
      | some e =>
        ⟨s.openEdits code.backend, .error (.access (Artifacts.ignorePath s.directory) e)⟩
      | none =>
        ⟨s.openEdits code.backend ++ s.ignoreEdit :: s.pairEdits code t,
          match s.refusal? code.backend t with
          | some e => .error e
          | none => .ok (.of s.directory s.name code.backend)⟩

/-! ### Nothing gets in the way -/

section
variable {files : List Place} (hkeeps : t.Keeps files s'.directories t')
include hkeeps

theorem ignoreHindrance?_of_keeps : s.ignoreHindrance? t' = s.ignoreHindrance? t :=
  Tree.hindrance?_of_keeps hkeeps ignore_notMem_directories

variable (hbackend : backend ∈ Registry.builtin.names)
include hbackend

theorem hindrance?_of_keeps (hending : ending ∈ endings) :
    s.hindrance? backend t' ending = s.hindrance? backend t ending :=
  Tree.hindrance?_of_keeps hkeeps
    (own_disjoint_directories (artifact_mem_own hbackend hending))

theorem refusal?_of_keeps : s.refusal? backend t' = s.refusal? backend t := by
  have h (ending : String) (hending : ending ∈ endings) :=
    hindrance?_of_keeps (s := s) hkeeps hbackend hending
  simp only [refusal?, List.findSome?_cons, List.findSome?_nil, h ".h" (by decide),
    h ".c" (by decide), h ".h.tmp" (by decide), h ".c.tmp" (by decide)]

theorem touched_of_keeps : s.touched backend t' = s.touched backend t := by
  have h : ∀ ending ∈ endings, s.isFree backend t' ending = s.isFree backend t ending := by
    intro ending hending
    rw [isFree, hindrance?_of_keeps hkeeps hbackend hending, isFree]
  have hstaged : [".h.tmp", ".c.tmp"] ⊆ endings := by decide
  have hpair : [".h", ".c"] ⊆ endings := by decide
  have hall : [".h.tmp", ".c.tmp", ".h"].all (s.isFree backend t') =
      [".h.tmp", ".c.tmp", ".h"].all (s.isFree backend t) := by
    simp only [List.all_cons, List.all_nil, h ".h" (by decide), h ".h.tmp" (by decide),
      h ".c.tmp" (by decide)]
  unfold touched
  rw [List.filter_congr fun ending hending => h ending (hstaged hending),
    List.filter_congr fun ending hending => h ending (hpair hending), hall]

end

theorem pairEdits_of_keeps {files : List Place} (hkeeps : t.Keeps files s'.directories t')
    (hbackend : code.backend ∈ Registry.builtin.names) :
    s.pairEdits code t' = s.pairEdits code t := by
  have hsource : s.isFree code.backend t' ".c" = s.isFree code.backend t ".c" := by
    rw [isFree, hindrance?_of_keeps hkeeps hbackend (by decide), isFree]
  unfold pairEdits final
  rw [hsource, touched_of_keeps hkeeps hbackend]

/-- The work on a spec puts nothing in the way of another one, or of itself. -/
theorem plan_of_keeps (hkeeps : t.Keeps s'.files s'.directories t')
    (hbackend : code.backend ∈ Registry.builtin.names) : s.plan code t' = s.plan code t := by
  have hgenerated : t'.hasFile s.generated = t.hasFile s.generated :=
    hkeeps.hasFile_eq (notMem_files_of_directories (s := s) List.mem_cons_self)
  have houtput : t'.hasFile (s.output code.backend) = t.hasFile (s.output code.backend) :=
    hkeeps.hasFile_eq (notMem_files_of_directories (s := s)
      (List.mem_cons_of_mem _ (List.mem_map_of_mem hbackend)))
  unfold plan
  rw [hgenerated, houtput, ignoreHindrance?_of_keeps hkeeps, refusal?_of_keeps hkeeps hbackend,
    pairEdits_of_keeps hkeeps hbackend]

/-- Both output directories are made. -/
theorem edits_openEdits (hfile : t.hasFile s.generated = false)
    (hfile' : t.hasFile (s.output backend) = false) :
    t.edits (s.openEdits backend) = (t.ensure s.generated).ensure (s.output backend) := by
  have hne : s.generated ≠ [] := by simp [generated]
  have hne' : s.output backend ≠ [] := by simp [output]
  have hfile'' : (t.put s.generated .directory).hasFile (s.output backend) = false := by
    rw [← Tree.ensure_eq_put hne hfile, Tree.hasFile_ensure hne, hfile']
  rw [Tree.ensure_eq_put hne hfile, Tree.ensure_eq_put hne' hfile'']
  rfl

/-- Once the output directories are there, files are written. -/
theorem turns_writeFiles (h : t.Reaches s.directory s.place) (hopen : s.Opened code.backend t)
    (hbackend : code.backend ∈ Registry.builtin.names) :
    Turns (do
        Run.writeFile (Artifacts.ignorePath s.directory) Artifacts.ignoreText
        let a := Artifacts.of s.directory s.name code.backend
        Run.writePair a code
        Run.report [.wrote a.header a.source]
        pure a) t
      (match s.ignoreHindrance? t with
        | some e => .error (.access (Artifacts.ignorePath s.directory) e)
        | none => match s.refusal? code.backend t with
          | some e => .error e
          | none => .ok (.of s.directory s.name code.backend))
      (t.edits (match s.ignoreHindrance? t with
        | some _ => []
        | none => s.ignoreEdit :: s.pairEdits code t)) := by
  have hplain : Plain ".gitignore" := by decide
  have hgenerated : t.Reaches (Artifacts.generatedDirectory s.directory) s.generated :=
    h.joined plain_generatedName rfl hopen.generated
  have hwrite := Tree.write_of_hindrance? hgenerated hplain (Tree.bytesOf Artifacts.ignoreText)
  cases hfree : s.ignoreHindrance? t with
  | some e =>
    rw [ignoreHindrance?] at hfree
    rw [hfree] at hwrite
    exact .bind_of_error (.change_of_error hwrite)
  | none =>
    rw [ignoreHindrance?] at hfree
    rw [hfree] at hwrite
    have hkeeps : t.Keeps [s.ignore] s.directories (t.edit s.ignoreEdit) :=
      (Tree.Keeps.put_file (by simp) (Tree.checkEntry_of_free hfree).2 _).mono
        (fun _ h => h) (List.nil_subset _)
    have houtput : (t.edit s.ignoreEdit).Reaches
        (Artifacts.outputDirectory s.directory code.backend) (s.output code.backend) :=
      (hgenerated.joined (plain_backend hbackend).1 (plain_backend hbackend).2 hopen.output).keeps
        hkeeps
    have hpair := turns_writePair ⟨houtput, .refl _⟩
    rw [refusal?_of_keeps hkeeps hbackend, pairEdits_of_keeps hkeeps hbackend] at hpair
    refine .bind (.change hwrite) ?_
    cases hrefusal : s.refusal? code.backend t with
    | some e =>
      rw [hrefusal] at hpair
      exact .bind_of_error hpair
    | none =>
      rw [hrefusal] at hpair
      exact .bind hpair (.bind (.report _ _) (.pure _ _))

theorem keeps_opened (hbackend : backend ∈ Registry.builtin.names) (t : Tree) :
    t.Keeps [] s.directories ((t.ensure s.generated).ensure (s.output backend)) := by
  have hgenerated : [s.generated] ⊆ s.directories :=
    List.cons_subset.mpr ⟨List.mem_cons_self, List.nil_subset _⟩
  have houtput : [s.output backend] ⊆ s.directories := List.cons_subset.mpr
    ⟨List.mem_cons_of_mem _ (List.mem_map_of_mem hbackend), List.nil_subset _⟩
  exact ((Tree.Keeps.ensure (by simp [generated]) t).mono (fun _ h => h) hgenerated).trans
    ((Tree.Keeps.ensure (by simp [output]) _).mono (fun _ h => h) houtput)

theorem turns_writeArtifacts (h : s.Stands t) (hbackend : code.backend ∈ Registry.builtin.names) :
    Turns (Run.writeArtifacts s.directory s.name code) t (s.plan code t).outcome
      (t.edits (s.plan code t).edits) := by
  obtain ⟨hplain, hcheck⟩ := plain_backend hbackend
  have hmake := Turns.makeDirectories (Artifacts.outputDirectory s.directory code.backend) t
  unfold Artifacts.outputDirectory Artifacts.generatedDirectory at hmake
  rw [Tree.makeDirectories_join h.reaches plain_generatedName hplain rfl hcheck, ← generated,
    ← output, ← Artifacts.generatedDirectory, ← Artifacts.outputDirectory] at hmake
  unfold Run.writeArtifacts plan
  dsimp only
  cases hpath : Tree.checkPath (Artifacts.outputDirectory s.directory code.backend) with
  | error e =>
    rw [hpath] at hmake
    exact .bind_of_error hmake
  | ok _ =>
    rw [hpath] at hmake
    dsimp only at hmake ⊢
    by_cases hfile : t.hasFile s.generated = true
    · rw [if_pos hfile] at hmake ⊢
      exact .bind_of_error hmake
    rw [if_neg hfile] at hmake ⊢
    rw [Bool.not_eq_true] at hfile
    by_cases hfile' : t.hasFile (s.output code.backend) = true
    · rw [if_pos hfile', Tree.ensure_eq_put (by simp [generated]) hfile] at hmake
      rw [if_pos hfile']
      exact .bind_of_error hmake
    rw [if_neg hfile'] at hmake ⊢
    rw [Bool.not_eq_true] at hfile'
    have hkeeps := keeps_opened (s := s) hbackend t
    have hfiles := turns_writeFiles (h.reaches.keeps hkeeps) (opened_ensure hfile hfile') hbackend
    rw [ignoreHindrance?_of_keeps hkeeps, refusal?_of_keeps hkeeps hbackend,
      pairEdits_of_keeps hkeeps hbackend] at hfiles
    rw [← edits_openEdits hfile hfile'] at hmake hfiles
    cases hfree : s.ignoreHindrance? t with
    | some e =>
      rw [hfree] at hfiles
      exact .bind hmake hfiles
    | none =>
      rw [hfree] at hfiles
      dsimp only
      rw [Tree.edits_append]
      exact .bind hmake hfiles

/-! ### Specs -/

end Site

/-- The surface and the code of a spec. -/
def SpecFile.code (config : InterfaceConfig) (spec : SpecFile) :
    Except Failure (Surface × GeneratedCode) :=
  match spec.source.compile with
  | .error ds => .error (.compile spec.path ds)
  | .ok surface =>
    match Registry.builtin.generate spec.name surface config with
    | .error fault => .error (.compile spec.path (.single (fault.diagnostic spec.source)))
    | .ok code => .ok (surface, code)

namespace SpecFile

/-- A spec does not compile, is refused by its backend, or has code. -/
theorem code_cases (config : InterfaceConfig) (spec : SpecFile) :
    (∃ ds, spec.source.compile = .error ds ∧ spec.code config = .error (.compile spec.path ds)) ∨
    (∃ surface fault, spec.source.compile = .ok surface ∧
      Registry.builtin.generate spec.name surface config = .error fault ∧
      spec.code config =
        .error (.compile spec.path (.single (fault.diagnostic spec.source)))) ∨
    ∃ surface code, spec.source.compile = .ok surface ∧
      Registry.builtin.generate spec.name surface config = .ok code ∧
      spec.code config = .ok (surface, code) := by
  unfold SpecFile.code
  cases spec.source.compile with
  | error ds => exact .inl ⟨ds, rfl, rfl⟩
  | ok surface =>
    dsimp only
    cases hcode : Registry.builtin.generate spec.name surface config with
    | error fault => exact .inr (.inl ⟨surface, fault, rfl, hcode, rfl⟩)
    | ok code => exact .inr (.inr ⟨surface, code, rfl, hcode, rfl⟩)

theorem backend_of_code {config : InterfaceConfig} {spec : SpecFile} {surface : Surface}
    {code : GeneratedCode} (h : spec.code config = .ok (surface, code)) :
    code.backend ∈ Registry.builtin.names := by
  rcases spec.code_cases config with ⟨ds, -, hcode⟩ | ⟨surface', fault, -, -, hcode⟩ |
    ⟨surface', code', -, hgenerate, hcode⟩
  · cases hcode.symm.trans h
  · cases hcode.symm.trans h
  · cases hcode.symm.trans h
    exact Registry.backend_of_generate hgenerate

end SpecFile

namespace Site
open Run (Turns)
variable {s s' : Site} {config : ProjectConfig} {spec spec' : SpecFile} {t t' : Tree}

/-- What the work on a spec comes down to. -/
def specPlan (s : Site) (config : ProjectConfig) (spec : SpecFile) (t : Tree) : Plan Generated :=
  match spec.code config.interfaces with
  | .error e => ⟨[], .error e⟩
  | .ok (surface, code) => ⟨(s.plan code t).edits,
      (s.plan code t).outcome.map fun a => ⟨spec.path, surface.moduleName, code.backend, a⟩⟩

theorem specPlan_of_keeps (hkeeps : t.Keeps s'.files s'.directories t') :
    s.specPlan config spec t' = s.specPlan config spec t := by
  unfold specPlan
  split
  · rfl
  · rename_i surface code hcode
    rw [plan_of_keeps hkeeps (SpecFile.backend_of_code hcode)]

theorem turns_generateSpec (launch : Launcher) (h : s.Stands t)
    (hformatter : config.formatter = none) (hdirectory : spec.directory = s.directory)
    (hname : spec.name = s.name) :
    Turns (Run.generateSpec launch config spec) t (s.specPlan config spec t).outcome
      (t.edits (s.specPlan config spec t).edits) := by
  unfold Run.generateSpec specPlan
  rw [hformatter]
  rcases spec.code_cases config.interfaces with ⟨ds, hcompile, hcode⟩ |
    ⟨surface, fault, hcompile, hgenerate, hcode⟩ | ⟨surface, code, hcompile, hgenerate, hcode⟩
  · rw [hcode, Run.compileSpec, hcompile]
    exact .bind_of_error (.bind (.report _ _) (.throw _ _))
  · rw [hcode, Run.compileSpec, hcompile]
    refine .bind (.bind (.report _ _) (.pure surface _)) ?_
    rw [Run.generateCode, hgenerate]
    exact .bind_of_error (.bind (.report _ _) (.throw _ _))
  · have hwrite := turns_writeArtifacts h (Registry.backend_of_generate hgenerate)
    rw [hcode, Run.compileSpec, hcompile]
    refine .bind (.bind (.report _ _) (.pure surface _)) ?_
    rw [Run.generateCode, hgenerate]
    refine .bind (.bind (.report _ _) (.pure code _)) ?_
    rw [hdirectory, hname]
    dsimp only
    cases houtcome : (s.plan code t).outcome with
    | error e =>
      rw [houtcome] at hwrite
      exact .bind_of_error hwrite
    | ok a =>
      rw [houtcome] at hwrite
      exact .bind hwrite (.pure _ _)

/-! ### Edits -/

theorem touched_subset (s : Site) (backend : String) (t : Tree) :
    s.touched backend t ⊆ endings := by
  have hstaged : [".h.tmp", ".c.tmp"] ⊆ endings := by decide
  have hpair : [".h", ".c"] ⊆ endings := by decide
  unfold touched
  refine List.append_subset.mpr ⟨List.Subset.trans List.filter_sublist.subset hstaged, ?_⟩
  split
  · exact List.Subset.trans List.filter_sublist.subset hpair
  · exact List.nil_subset _

section
variable {code code' : GeneratedCode} {e e' : Tree.Edit}

/-- An edit makes a directory, says what to ignore, or is one of an artifact. -/
theorem edit_cases (he : e ∈ (s.plan code t).edits)
    (hbackend : code.backend ∈ Registry.builtin.names) :
    (e.place ∈ s.directories ∧ e.node = some .directory) ∨ e = s.ignoreEdit ∨
      ∃ ending ∈ endings, e.place = s.artifact code.backend ending ∧
        e.node = s.final code t ending := by
  have hopen : ∀ e ∈ s.openEdits code.backend,
      e.place ∈ s.directories ∧ e.node = some .directory := by
    refine List.forall_mem_cons.mpr ⟨⟨List.mem_cons_self, rfl⟩, List.forall_mem_singleton.mpr ?_⟩
    exact ⟨List.mem_cons_of_mem _ (List.mem_map_of_mem hbackend), rfl⟩
  unfold plan at he
  dsimp only at he
  split at he
  · exact absurd he List.not_mem_nil
  split at he
  · exact absurd he List.not_mem_nil
  split at he
  · exact .inl (hopen e (List.mem_cons.mpr (.inl (List.mem_singleton.mp he))))
  split at he
  · exact .inl (hopen e he)
  rcases List.mem_append.mp he with he | he
  · exact .inl (hopen e he)
  rcases List.mem_cons.mp he with he | he
  · exact .inr (.inl he)
  obtain ⟨ending, hending, rfl⟩ := List.mem_map.mp he
  exact .inr (.inr ⟨ending, touched_subset s _ t hending, rfl, rfl⟩)

/-- All edits of a site are in the directory for generated files, or make it. -/
theorem generated_isPrefix (he : e ∈ (s.plan code t).edits)
    (hbackend : code.backend ∈ Registry.builtin.names) : s.generated <+: e.place := by
  rcases edit_cases he hbackend with ⟨hplace, -⟩ | rfl | ⟨ending, -, hplace, -⟩
  · rcases List.mem_cons.mp hplace with hplace | hplace
    · exact hplace ▸ List.prefix_rfl
    · obtain ⟨backend, -, hplace⟩ := List.mem_map.mp hplace
      rw [← hplace]
      exact List.prefix_append ..
  · exact List.prefix_append ..
  · rw [hplace, artifact, output, List.append_assoc]
    exact List.prefix_append ..

/-- The edits of two sites agree: artifacts are of one site only, and all else is shared. -/
theorem node_eq_of_place (he : e ∈ (s.plan code t).edits) (he' : e' ∈ (s'.plan code' t).edits)
    (hbackend : code.backend ∈ Registry.builtin.names)
    (hbackend' : code'.backend ∈ Registry.builtin.names)
    (hsame : s.place = s'.place → s.name = s'.name → s = s' ∧ code = code')
    (hplace : e.place = e'.place) : e.node = e'.node := by
  rcases edit_cases he hbackend with ⟨hmem, hnode⟩ | rfl | ⟨ending, hending, hmem, hnode⟩
  · rcases edit_cases he' hbackend' with ⟨-, hnode'⟩ | rfl | ⟨ending', hending', hmem', -⟩
    · rw [hnode, hnode']
    · rw [hplace] at hmem
      exact absurd hmem ignore_notMem_directories
    · rw [hplace, hmem'] at hmem
      exact absurd hmem (own_disjoint_directories (artifact_mem_own hbackend' hending'))
  · rcases edit_cases he' hbackend' with ⟨hmem', -⟩ | rfl | ⟨ending', hending', hmem', -⟩
    · rw [← hplace] at hmem'
      exact absurd hmem' ignore_notMem_directories
    · rfl
    · rw [hmem'] at hplace
      exact absurd hplace.symm (own_ne_ignore (artifact_mem_own hbackend' hending'))
  · rcases edit_cases he' hbackend' with ⟨hmem', -⟩ | rfl | ⟨ending', hending', hmem', hnode'⟩
    · rw [← hplace, hmem] at hmem'
      exact absurd hmem' (own_disjoint_directories (artifact_mem_own hbackend hending))
    · rw [hmem] at hplace
      exact absurd hplace (own_ne_ignore (artifact_mem_own hbackend hending))
    · have hartifact : s.artifact code.backend ending = s'.artifact code'.backend ending' := by
        rw [← hmem, hplace, hmem']
      obtain ⟨hsite, hname, -⟩ := artifacts_inj (artifact_mem_artifacts hending)
        (hartifact ▸ artifact_mem_artifacts hending')
      obtain ⟨rfl, rfl⟩ := hsame hsite hname
      have heq : ending = ending' := Decidable.byContradiction fun hne =>
        artifact_ne_artifact hending hending' hne hartifact
      rw [hnode, hnode', heq]

end

theorem exists_plan {e : Tree.Edit} (he : e ∈ (s.specPlan config spec t).edits) :
    ∃ surface code, spec.code config.interfaces = .ok (surface, code) ∧
      e ∈ (s.plan code t).edits := by
  unfold specPlan at he
  split at he
  · exact absurd he List.not_mem_nil
  · rename_i surface code hcode
    exact ⟨surface, code, hcode, he⟩

end Site

end NativeInterface
