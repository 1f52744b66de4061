import NativeInterface.Proofs.Outcome
import NativeInterface.Surface.InPlace

/-!
# Declarations that fail leave no trace

Work on a builder in place could stop halfway. It does not: all checks of a declaration stand before
its first change, so a declaration is applied as a whole or not at all (`Builder.commits_edit`).
Hence leaving out the declarations that fail is the same as never having written them.
-/

namespace NativeInterface.Builder

variable {α : Type} {b : Builder}

/-! ## Edits that are applied as a whole -/

/-- The outcome of work on a builder, and the builder it leaves. -/
def after (m : Edit α) (b : Builder) : Except Fault α × Builder := m.run.run b

theorem after_bind (m : Edit α) (k : α → Edit Unit) (b : Builder) :
    after (m >>= k) b = match after m b with
      | (.ok a, b') => after (k a) b'
      | (.error fault, b') => (.error fault, b') := by
  change (ExceptT.bindCont k (after m b).1).run (after m b).2 = _
  obtain ⟨outcome, b'⟩ := after m b
  cases outcome <;> rfl

/-- From `b` on, `m` makes the change `r`, or finds its fault and leaves `b`. -/
def Commits (m : Edit Unit) (b : Builder) (r : Except Fault Builder) : Prop :=
  after m b = match r with
    | .ok b' => (.ok (), b')
    | .error fault => (.error fault, b)

theorem commits_modify (f : Builder → Builder) (b : Builder) : Commits (modify f) b (.ok (f b)) :=
  rfl

/-- A change goes on with the next one. -/
theorem Commits.modify_bind {f : Builder → Builder} {m : Edit Unit} {b' : Builder}
    (h : Commits m (f b) (.ok b')) : Commits (do modify f; m) b (.ok b') := by
  unfold Commits
  rw [after_bind]
  exact h

/-- A check in front of an edit changes nothing, whether it passes or not. -/
theorem Commits.inspect_bind {check : Builder → Except Fault α} {k : α → Edit Unit}
    {g : α → Except Fault Builder} (h : ∀ a, Commits (k a) b (g a)) :
    Commits (inspect check >>= k) b (check b >>= g) := by
  have hcheck : after (inspect check) b = (check b, b) := rfl
  unfold Commits
  rw [after_bind, hcheck]
  cases check b with
  | error fault => rfl
  | ok a => exact h a

/-- A condition that must not hold, in front of an edit. -/
theorem Commits.refuse_bind {p : Builder → Prop} [DecidablePred p] {fault : Fault} {m : Edit Unit}
    {r : Except Fault Builder} (h : Commits m b r) :
    Commits (do inspect fun b => if p b then .error fault else .ok (); m) b
      (if p b then .error fault else r) := by
  have hbind : (if p b then .error fault else r) =
      (if p b then .error fault else .ok () : Except Fault Unit) >>= fun _ => r := by
    split <;> rfl
  rw [hbind]
  exact .inspect_bind fun _ => h

/-! ## Records -/

theorem commits_editFunction (f : RawFunction) (b : Builder) :
    Commits (editFunction f) b (b.addFunction f) :=
  .refuse_bind (.inspect_bind fun _ => .inspect_bind fun _ => commits_modify _ b)

theorem commits_editStruct (span : Span) (s : Struct) (b : Builder) :
    Commits (editStruct span s) b (b.addStruct span s) :=
  .refuse_bind (.inspect_bind fun _ => .modify_bind (commits_modify _ _))

theorem commits_editEnum (span : Span) (e : Enum) (b : Builder) :
    Commits (editEnum span e) b (b.addEnum span e) :=
  .refuse_bind (.modify_bind (commits_modify _ _))

theorem commits_editSends (c : RawClause) (b : Builder) :
    Commits (editSends c) b (b.addSends c) :=
  .inspect_bind fun _ => .inspect_bind fun _ => commits_modify _ b

theorem commits_forM_editDirty (marks : List DirtyMark) (b : Builder) :
    Commits (marks.forM editDirty) b
      (.ok { b with dirty := marks.foldl DirtyMark.put b.dirty }) := by
  induction marks generalizing b with
  | nil => rfl
  | cons m marks ih => exact .modify_bind (ih _)

theorem commits_editRecord (span : Span) (r : Record) (b : Builder) :
    Commits (editRecord span r) b (b.apply span r) := by
  cases r with
  | moduleName | interface | stateType | callback => exact commits_modify _ b
  | function f => exact commits_editFunction f b
  | struct s => exact commits_editStruct span s b
  | enum e => exact commits_editEnum span e b
  | dirty marks => exact commits_forM_editDirty marks b
  | sends c => exact commits_editSends c b

/-- A declaration is applied as a whole, or the builder stays as it is. -/
theorem commits_edit (d : Declaration) (b : Builder) : Commits (edit d) b (b.add d) :=
  .inspect_bind fun r => commits_editRecord d.span r b

/-! ## Runs -/

/-- The declarations whose outcome is no fault. -/
def accepted : List Declaration → List (Except Fault Unit) → List Declaration
  | d :: ds, .ok () :: outcomes => d :: accepted ds outcomes
  | _ :: ds, .error _ :: outcomes => accepted ds outcomes
  | _, _ => []

/-- The first fault among outcomes. -/
def firstFault? : List (Except Fault Unit) → Option Fault
  | [] => none
  | .ok () :: outcomes => firstFault? outcomes
  | .error fault :: _ => some fault

theorem accepted_sublist (ds : List Declaration) (outcomes : List (Except Fault Unit)) :
    (accepted ds outcomes).Sublist ds := by
  fun_induction accepted ds outcomes with
  | case1 d ds outcomes ih => exact ih.cons_cons d
  | case2 d ds fault outcomes ih => exact ih.cons d
  | case3 => exact List.nil_sublist _

theorem editAll_cons (d : Declaration) (ds : List Declaration) (b : Builder) :
    (editAll (d :: ds)).run b =
      let (outcome, b') := after (edit d) b
      let (outcomes, b'') := (editAll ds).run b'
      (outcome :: outcomes, b'') := by
  unfold editAll
  rw [List.mapM_cons]
  rfl

theorem editAll_of_ok {d : Declaration} {b' : Builder} (h : b.add d = .ok b')
    (ds : List Declaration) :
    (editAll (d :: ds)).run b =
      (.ok () :: ((editAll ds).run b').1, ((editAll ds).run b').2) := by
  have hedit := commits_edit d b
  rw [h] at hedit
  rw [editAll_cons, hedit]
  rfl

theorem editAll_of_error {d : Declaration} {fault : Fault} (h : b.add d = .error fault)
    (ds : List Declaration) :
    (editAll (d :: ds)).run b =
      (.error fault :: ((editAll ds).run b).1, ((editAll ds).run b).2) := by
  have hedit := commits_edit d b
  rw [h] at hedit
  rw [editAll_cons, hedit]
  rfl

/-- The declarations that a run accepts can be applied alone, to the same effect. -/
theorem foldlM_accepted (ds : List Declaration) (b : Builder) :
    (accepted ds ((editAll ds).run b).1).foldlM add b = .ok ((editAll ds).run b).2 := by
  induction ds generalizing b with
  | nil => rfl
  | cons d ds ih =>
    cases h : b.add d with
    | ok b' =>
      rw [editAll_of_ok h, accepted, List.foldlM_cons, h]
      exact ih b'
    | error fault =>
      rw [editAll_of_error h, accepted]
      exact ih b

/-- Stopping at the first fault finds the first fault of the whole run. -/
theorem foldlM_eq_error_iff (ds : List Declaration) (b : Builder) (fault : Fault) :
    ds.foldlM add b = .error fault ↔ firstFault? ((editAll ds).run b).1 = some fault := by
  induction ds generalizing b with
  | nil => exact ⟨nofun, nofun⟩
  | cons d ds ih =>
    rw [List.foldlM_cons]
    cases h : b.add d with
    | ok b' =>
      rw [editAll_of_ok h, firstFault?]
      exact ih b'
    | error fault' =>
      rw [editAll_of_error h, firstFault?]
      constructor <;> rintro ⟨⟩ <;> rfl

end NativeInterface.Builder

namespace NativeInterface

/-- **Declarations that fail leave no trace.** A builder is left as it was by each of them. Applying
all declarations, whichever fail, gives what building from the accepted ones alone gives, and
building from all of them fails exactly if one of them does, with the first fault. -/
theorem Surface.build_accepted :
    (∀ (b b' : Builder) (d : Declaration) (fault : Fault),
        (Builder.edit d).run.run b = (.error fault, b') → b' = b) ∧
      ∀ (name : String) (ds : List Declaration),
        let run := (Builder.editAll ds).run (.ofName name)
        (Builder.accepted ds run.1).Sublist ds ∧
          build name (Builder.accepted ds run.1) = .ok run.2.finish ∧
          ∀ fault, build name ds = .error fault ↔ Builder.firstFault? run.1 = some fault := by
  refine ⟨fun b b' d fault h => ?_, fun name ds => ⟨?_, ?_, fun fault => ?_⟩⟩
  · have hedit := Builder.commits_edit d b
    unfold Builder.Commits Builder.after at hedit
    rw [h] at hedit
    cases hadd : b.add d with
    | ok b'' =>
      rw [hadd] at hedit
      cases hedit
    | error fault' =>
      rw [hadd] at hedit
      cases hedit
      rfl
  · exact Builder.accepted_sublist ds _
  · unfold build
    rw [Builder.foldlM_accepted]
    rfl
  · rw [← Builder.foldlM_eq_error_iff]
    unfold build
    cases ds.foldlM Builder.add (Builder.ofName name) with
    | ok b => exact ⟨nofun, nofun⟩
    | error fault' => constructor <;> rintro ⟨⟩ <;> rfl

/-- The second `type a :: :x` fails, and the module that follows it is still declared. -/
theorem Surface.build_accepted_duplicate :
    let d : Declaration := ⟨⟨"type", {}⟩, [.typed (.ident "a" {}) (.atom "x" {}) {}], {}⟩
    let e : Declaration := ⟨⟨"module", {}⟩, [.dotted ["M"] {}], {}⟩
    let run := (Builder.editAll [d, d, e]).run (.ofName "s")
    (∃ b b' fault, (Builder.edit d).run.run b = (.error fault, b') ∧ b' = b) ∧
      build "s" [d, d, e] = .error (.duplicateTypeAlias "a" {}) ∧
      build "s" [d, e] = .ok run.2.finish ∧
      run.2.finish = { moduleName := "M", enums := [⟨"a", ["x"]⟩] } := by
  intro d e run
  let b : Builder := { Builder.ofName "s" with enums := [⟨"a", ["x"]⟩], scope := ⟨["a"]⟩ }
  have hfail : (Builder.edit d).run.run b = (.error (.duplicateTypeAlias "a" {}), b) := rfl
  obtain ⟨hatomic, hbuild⟩ := build_accepted
  obtain ⟨-, hkept, hfirst⟩ := hbuild "s" [d, d, e]
  exact ⟨⟨b, b, _, hfail, hatomic b b d _ hfail⟩, (hfirst _).mpr rfl, hkept, rfl⟩

end NativeInterface
