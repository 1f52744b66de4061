import NativeInterface.Project.Generate

/-!
# Outcomes of runs

A run on a world has an outcome and leaves a world. `Alike` compares a run on two worlds: from trees
that are related, the outcomes are the same and the trees that are left are related again. A run
over a project is the list of what became of each spec (`outcome_generate`).
-/

namespace NativeInterface

namespace Run
variable {α β : Type} {x : Run α} {f : α → Run β} {handle : Failure → Run α} {w : World}

/-- The value or the failure of a run. -/
def outcome (x : Run α) (w : World) : Except Failure α := (x.run.run w).1

/-- The world that a run leaves. -/
def after (x : Run α) (w : World) : World := (x.run.run w).2

/-! ## Runs in sequence -/

theorem run_bind (x : Run α) (f : α → Run β) (w : World) :
    (x >>= f).run.run w = match x.outcome w with
      | .ok a => (f a).run.run (x.after w)
      | .error e => (.error e, x.after w) := by
  unfold outcome after
  rw [ExceptT.run_bind, StateT.run_bind]
  rcases x.run.run w with ⟨_ | _, v⟩ <;> rfl

theorem run_tryCatch (x : Run α) (handle : Failure → Run α) (w : World) :
    (tryCatch x handle).run.run w = match x.outcome w with
      | .ok a => (.ok a, x.after w)
      | .error e => (handle e).run.run (x.after w) := by
  unfold outcome after
  rw [ExceptT.run_tryCatch, StateT.run_bind]
  rcases x.run.run w with ⟨_ | _, v⟩ <;> rfl

section
variable {a : α} {e : Failure}

theorem outcome_bind_of_ok (h : x.outcome w = .ok a) :
    (x >>= f).outcome w = (f a).outcome (x.after w) := by
  rw [outcome, run_bind, h]
  rfl

theorem after_bind_of_ok (h : x.outcome w = .ok a) :
    (x >>= f).after w = (f a).after (x.after w) := by
  rw [after, run_bind, h]
  rfl

theorem outcome_bind_of_error (h : x.outcome w = .error e) : (x >>= f).outcome w = .error e := by
  rw [outcome, run_bind, h]

theorem after_bind_of_error (h : x.outcome w = .error e) : (x >>= f).after w = x.after w := by
  rw [after, run_bind, h]

theorem exists_of_outcome_bind {b : β} (h : (x >>= f).outcome w = .ok b) :
    ∃ a, x.outcome w = .ok a ∧ (f a).outcome (x.after w) = .ok b := by
  cases hx : x.outcome w with
  | error e =>
    rw [outcome_bind_of_error hx] at h
    cases h
  | ok a =>
    rw [outcome_bind_of_ok hx] at h
    exact ⟨a, rfl, h⟩

theorem outcome_tryCatch_of_ok (h : x.outcome w = .ok a) :
    (tryCatch x handle).outcome w = .ok a := by
  rw [outcome, run_tryCatch, h]

theorem after_tryCatch_of_ok (h : x.outcome w = .ok a) :
    (tryCatch x handle).after w = x.after w := by
  rw [after, run_tryCatch, h]

theorem outcome_tryCatch_of_error (h : x.outcome w = .error e) :
    (tryCatch x handle).outcome w = (handle e).outcome (x.after w) := by
  rw [outcome, run_tryCatch, h]
  rfl

theorem after_tryCatch_of_error (h : x.outcome w = .error e) :
    (tryCatch x handle).after w = (handle e).after (x.after w) := by
  rw [after, run_tryCatch, h]
  rfl

end

theorem run_change (path : String) (operation : Tree → Except FileError Tree) (w : World) :
    (change path operation).run.run w = match operation w.tree with
      | .ok tree => (.ok (), { w with tree })
      | .error e => (.error (.access path e), w) := by
  show (match operation w.tree with
    | .ok tree => (set { w with tree } : Run Unit)
    | .error e => throw (Failure.access path e)).run.run w = _
  split <;> rfl

theorem run_makeDirectories (path : String) (w : World) :
    (makeDirectories path).run.run w =
      ((match (w.tree.makeDirectories path).error with
        | none => .ok ()
        | some e => .error (.access path e)),
        { w with tree := (w.tree.makeDirectories path).tree }) := by
  show (match (w.tree.makeDirectories path).error with
    | none => (Pure.pure () : Run Unit)
    | some e => throw (Failure.access path e)).run.run
      { w with tree := (w.tree.makeDirectories path).tree } = _
  split <;> rfl

theorem run_discard (path : String) (w : World) :
    (discard path).run.run w = match w.tree.remove path with
      | .ok tree => (.ok (), { w with tree })
      | .error .notFound => (.ok (), w)
      | .error e => (report [.removeFailed path e.text]).run.run w := by
  show (match w.tree.remove path with
    | .ok tree => (set { w with tree } : Run Unit)
    | .error .notFound => Pure.pure ()
    | .error e => report [.removeFailed path e.text]).run.run w = _
  split <;> rfl

/-- The tree that a formatter leaves. -/
def formatTree (launch : Launcher) (formatter : String) (a : Artifacts) (t : Tree) : Tree :=
  match Text.words formatter with
  | [] => t
  | program :: args =>
    match launch program (args ++ ["-i", a.header, a.source]) t with
    | .error _ => t
    | .ok ended => ended.tree

theorem run_format (launch : Launcher) (formatter : String) (a : Artifacts) (w : World) :
    (format launch formatter a).outcome w = .ok () ∧
      ((format launch formatter a).after w).tree = formatTree launch formatter a w.tree := by
  have hget : (get : Run World).outcome w = .ok w := rfl
  unfold format formatTree
  cases Text.words formatter with
  | nil => exact ⟨rfl, rfl⟩
  | cons program args =>
    dsimp only
    rw [outcome_bind_of_ok hget, after_bind_of_ok hget]
    cases launch program (args ++ ["-i", a.header, a.source]) w.tree with
    | error e => exact ⟨rfl, rfl⟩
    | ok ended =>
      dsimp only
      split <;> exact ⟨rfl, rfl⟩

theorem outcome_discard (path : String) (w : World) : (discard path).outcome w = .ok () := by
  rw [outcome, run_discard]
  split <;> rfl

theorem tree_discard (path : String) (w : World) :
    ((discard path).after w).tree = match w.tree.remove path with
      | .ok tree => tree
      | .error _ => w.tree := by
  rw [after, run_discard]
  cases w.tree.remove path with
  | ok tree => rfl
  | error e => cases e <;> rfl

theorem generate_of_generateCode {config : InterfaceConfig} {spec : SpecFile} {s : Surface}
    {code : GeneratedCode} (h : (generateCode config spec s).outcome w = .ok code) :
    Registry.builtin.generate spec.name s config = .ok code := by
  obtain ⟨_, -, h⟩ := exists_of_outcome_bind h
  cases hcode : Registry.builtin.generate spec.name s config with
  | ok code' =>
    rw [hcode] at h
    exact congrArg Except.ok (Except.ok.inj h)
  | error fault =>
    rw [hcode] at h
    cases h

theorem eq_of_writeArtifacts {directory name : String} {code : GeneratedCode} {a : Artifacts}
    (h : (writeArtifacts directory name code).outcome w = .ok a) :
    a = .of directory name code.backend := by
  obtain ⟨_, -, h⟩ := exists_of_outcome_bind h
  obtain ⟨_, -, h⟩ := exists_of_outcome_bind h
  obtain ⟨_, -, h⟩ := exists_of_outcome_bind h
  obtain ⟨_, -, h⟩ := exists_of_outcome_bind h
  exact (Except.ok.inj h).symm

/-! ## Runs on two worlds -/

/-- On trees that `R` relates a run has one outcome. It leaves trees that `S` relates if it gives a
value, and trees that `E` relates if it fails. -/
def Alike (R S E : Tree → Tree → Prop) (x : Run α) : Prop :=
  ∀ w u, R w.tree u.tree →
    (∃ a, x.outcome w = .ok a ∧ x.outcome u = .ok a ∧ S (x.after w).tree (x.after u).tree) ∨
      ∃ e, x.outcome w = .error e ∧ x.outcome u = .error e ∧ E (x.after w).tree (x.after u).tree

namespace Alike
variable {R S E Q : Tree → Tree → Prop}

theorem pure (a : α) : Alike R R E (pure a : Run α) := fun _ _ h => .inl ⟨a, rfl, rfl, h⟩

theorem throw (e : Failure) : Alike R S R (throw e : Run α) := fun _ _ h => .inr ⟨e, rfl, rfl, h⟩

theorem report (events : List Event) : Alike R R E (report events) :=
  fun _ _ h => .inl ⟨(), rfl, rfl, h⟩

theorem bind (hx : Alike R S E x) (hf : ∀ a w, x.outcome w = .ok a → Alike S Q E (f a)) :
    Alike R Q E (x >>= f) := by
  intro w u h
  rcases hx w u h with ⟨a, hw, hu, hS⟩ | ⟨e, hw, hu, hE⟩
  · rw [outcome_bind_of_ok hw, outcome_bind_of_ok hu, after_bind_of_ok hw, after_bind_of_ok hu]
    exact hf a w hw _ _ hS
  · rw [outcome_bind_of_error hw, outcome_bind_of_error hu, after_bind_of_error hw,
      after_bind_of_error hu]
    exact .inr ⟨e, rfl, rfl, hE⟩

theorem mono {R' S' E' : Tree → Tree → Prop} (h : Alike R S E x) (hR : ∀ t u, R' t u → R t u)
    (hS : ∀ t u, S t u → S' t u) (hE : ∀ t u, E t u → E' t u) : Alike R' S' E' x := by
  intro w u hw
  rcases h w u (hR _ _ hw) with ⟨a, hw, hu, hs⟩ | ⟨e, hw, hu, he⟩
  · exact .inl ⟨a, hw, hu, hS _ _ hs⟩
  · exact .inr ⟨e, hw, hu, hE _ _ he⟩

theorem orElseDo {cleanup : Run Unit} (hx : Alike R S E x) (hcleanup : Alike E E E cleanup) :
    Alike R S E (orElseDo x cleanup) := by
  intro w u h
  unfold Run.orElseDo
  rcases hx w u h with ⟨a, hw, hu, hS⟩ | ⟨e, hw, hu, hE⟩
  · rw [outcome_tryCatch_of_ok hw, outcome_tryCatch_of_ok hu, after_tryCatch_of_ok hw,
      after_tryCatch_of_ok hu]
    exact .inl ⟨a, rfl, rfl, hS⟩
  · rw [outcome_tryCatch_of_error hw, outcome_tryCatch_of_error hu, after_tryCatch_of_error hw,
      after_tryCatch_of_error hu]
    exact (hcleanup.bind fun _ _ _ => throw e) _ _ hE

/-- A change that goes the same way on both trees. -/
theorem change {path : String} {operation : Tree → Except FileError Tree}
    (h : ∀ t u, R t u → (∃ e, operation t = .error e ∧ operation u = .error e) ∨
      ∃ t' u', operation t = .ok t' ∧ operation u = .ok u' ∧ S t' u') :
    Alike R S R (change path operation) := by
  intro w u hR
  unfold outcome after
  rw [run_change, run_change]
  rcases h _ _ hR with ⟨e, hw, hu⟩ | ⟨t', u', hw, hu, hR'⟩
  · rw [hw, hu]
    exact .inr ⟨_, rfl, rfl, hR⟩
  · rw [hw, hu]
    exact .inl ⟨_, rfl, rfl, hR'⟩

theorem makeDirectories {path : String}
    (h : ∀ t u, R t u → (t.makeDirectories path).error = (u.makeDirectories path).error ∧
      E (t.makeDirectories path).tree (u.makeDirectories path).tree ∧
      ((t.makeDirectories path).error = none →
        S (t.makeDirectories path).tree (u.makeDirectories path).tree)) :
    Alike R S E (makeDirectories path) := by
  intro w u hR
  obtain ⟨herror, hE, hS⟩ := h _ _ hR
  unfold outcome after
  rw [run_makeDirectories, run_makeDirectories, ← herror]
  cases hnone : (w.tree.makeDirectories path).error with
  | none => exact .inl ⟨_, rfl, rfl, hS hnone⟩
  | some e => exact .inr ⟨_, rfl, rfl, hE⟩

theorem discard {path : String}
    (h : ∀ t u, R t u → (∃ e, t.remove path = .error e ∧ u.remove path = .error e) ∨
      ∃ t' u', t.remove path = .ok t' ∧ u.remove path = .ok u' ∧ R t' u') :
    Alike R R R (discard path) := by
  intro w u hR
  refine .inl ⟨(), outcome_discard .., outcome_discard .., ?_⟩
  rw [tree_discard, tree_discard]
  rcases h _ _ hR with ⟨e, hw, hu⟩ | ⟨t', u', hw, hu, hR'⟩
  · rw [hw, hu]
    exact hR
  · rw [hw, hu]
    exact hR'

theorem format {launch : Launcher} {formatter : String} {a : Artifacts}
    (h : ∀ t u, R t u → S (formatTree launch formatter a t) (formatTree launch formatter a u)) :
    Alike R S E (format launch formatter a) := by
  intro w u hR
  obtain ⟨hw, hwtree⟩ := run_format launch formatter a w
  obtain ⟨hu, hutree⟩ := run_format launch formatter a u
  exact .inl ⟨(), hw, hu, hwtree ▸ hutree ▸ h _ _ hR⟩

end Alike

/-! ## Specs one by one -/

variable (launch : Launcher)

/-- What becomes of one spec. -/
def attempt (launch : Launcher) (config : ProjectConfig) (spec : SpecFile) :
    Run (String × Except Failure Generated) :=
  tryCatch
    (do
      let g ← generateSpec launch config spec
      pure (spec.path, .ok g))
    fun failure => do
      report [.generationFailed spec.path]
      pure (spec.path, .error failure)

/-- What becomes of each spec below a root, by its path. -/
def outcomes (launch : Launcher) (root : String) :
    Run (List (String × Except Failure Generated)) := do
  let config ← loadConfig root
  let specs ← discover root
  specs.mapM (attempt launch config)

theorem outcome_attempt (config : ProjectConfig) (spec : SpecFile) (w : World) :
    (attempt launch config spec).outcome w =
      .ok (spec.path, (generateSpec launch config spec).outcome w) := by
  unfold attempt
  cases h : (generateSpec launch config spec).outcome w with
  | ok g => exact outcome_tryCatch_of_ok (outcome_bind_of_ok h)
  | error e =>
    rw [outcome_tryCatch_of_error (outcome_bind_of_error h)]
    rfl

theorem tree_attempt (config : ProjectConfig) (spec : SpecFile) (w : World) :
    ((attempt launch config spec).after w).tree =
      ((generateSpec launch config spec).after w).tree := by
  unfold attempt
  cases h : (generateSpec launch config spec).outcome w with
  | ok g =>
    rw [after_tryCatch_of_ok (outcome_bind_of_ok h), after_bind_of_ok h]
    rfl
  | error e =>
    rw [after_tryCatch_of_error (outcome_bind_of_error h), after_bind_of_error h]
    rfl

end Run

namespace Report

/-- Take what became of a spec into a report. -/
def add (r : Report) : Except Failure Generated → Report
  | .ok g => { r with generated := r.generated ++ [g] }
  | .error e => { r with failures := r.failures ++ [e] }

/-- The report of what became of each spec. -/
def of (es : List (String × Except Failure Generated)) : Report :=
  es.foldl (fun r e => r.add e.2) {}

end Report

namespace Run
variable (launch : Launcher)

theorem run_addSpec (config : ProjectConfig) (r : Report) (spec : SpecFile) (w : World) :
    (addSpec launch config r spec).outcome w =
        .ok (r.add ((generateSpec launch config spec).outcome w)) ∧
      (addSpec launch config r spec).after w = (attempt launch config spec).after w := by
  unfold addSpec attempt
  cases h : (generateSpec launch config spec).outcome w with
  | ok g =>
    rw [outcome_tryCatch_of_ok (outcome_bind_of_ok h), after_tryCatch_of_ok (outcome_bind_of_ok h),
      after_tryCatch_of_ok (outcome_bind_of_ok h), after_bind_of_ok h, after_bind_of_ok h]
    exact ⟨rfl, rfl⟩
  | error e =>
    rw [outcome_tryCatch_of_error (outcome_bind_of_error h),
      after_tryCatch_of_error (outcome_bind_of_error h),
      after_tryCatch_of_error (outcome_bind_of_error h), after_bind_of_error h,
      after_bind_of_error h]
    exact ⟨rfl, rfl⟩

/-- Taking specs into a report never fails, and is a matter of what becomes of each. -/
theorem run_foldlM_addSpec (config : ProjectConfig) (specs : List SpecFile) (r : Report)
    (w : World) : ∃ es, (specs.mapM (attempt launch config)).outcome w = .ok es ∧
      (specs.foldlM (addSpec launch config) r).outcome w =
        .ok (es.foldl (fun r e => r.add e.2) r) ∧
      (specs.foldlM (addSpec launch config) r).after w =
        (specs.mapM (attempt launch config)).after w := by
  induction specs generalizing r w with
  | nil => exact ⟨[], rfl, rfl, rfl⟩
  | cons spec specs ih =>
    obtain ⟨hadd, hafter⟩ := run_addSpec launch config r spec w
    have hattempt := outcome_attempt launch config spec w
    obtain ⟨es, hes, hfold, hworld⟩ := ih (r.add ((generateSpec launch config spec).outcome w))
      ((attempt launch config spec).after w)
    refine ⟨(spec.path, (generateSpec launch config spec).outcome w) :: es, ?_, ?_, ?_⟩
    · rw [List.mapM_cons, outcome_bind_of_ok hattempt, outcome_bind_of_ok hes]
      rfl
    · rw [List.foldlM_cons, outcome_bind_of_ok hadd, hafter, hfold]
      rfl
    · rw [List.foldlM_cons, after_bind_of_ok hadd, hafter, hworld, List.mapM_cons,
        after_bind_of_ok hattempt, after_bind_of_ok hes]
      rfl

/-- A run over a project reports what becomes of each spec. -/
theorem outcome_generate (root : String) (w : World) :
    (generate launch root).outcome w = ((outcomes launch root).outcome w).map Report.of ∧
      ((generate launch root).after w).tree = ((outcomes launch root).after w).tree := by
  unfold generate outcomes
  cases hconfig : (loadConfig root).outcome w with
  | error e =>
    rw [outcome_bind_of_error hconfig, outcome_bind_of_error hconfig, after_bind_of_error hconfig,
      after_bind_of_error hconfig]
    exact ⟨rfl, rfl⟩
  | ok config =>
    rw [outcome_bind_of_ok hconfig, outcome_bind_of_ok hconfig, after_bind_of_ok hconfig,
      after_bind_of_ok hconfig]
    generalize (loadConfig root).after w = v
    cases hspecs : (discover root).outcome v with
    | error e =>
      rw [outcome_bind_of_error hspecs, outcome_bind_of_error hspecs, after_bind_of_error hspecs,
        after_bind_of_error hspecs]
      exact ⟨rfl, rfl⟩
    | ok specs =>
      rw [outcome_bind_of_ok hspecs, outcome_bind_of_ok hspecs, after_bind_of_ok hspecs,
        after_bind_of_ok hspecs]
      obtain ⟨es, hes, hfold, hafter⟩ :=
        run_foldlM_addSpec launch config specs {} ((discover root).after v)
      rw [outcome_bind_of_ok hfold, after_bind_of_ok hfold, hes, hafter]
      exact ⟨rfl, rfl⟩

end Run

end NativeInterface
