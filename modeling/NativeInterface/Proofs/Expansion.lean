import NativeInterface.Proofs.Unplaced
import Mathlib.Logic.Relation

/-!
# Short forms and what they stand for

A declaration may be written in short forms. Each can be written out where it stands, by one step
of `Declaration.Step`, and a step keeps the record of the declaration (`Record.kept_of_step`).
So do any number of steps (`Record.ofDeclaration_of_steps`). A step says where its form may stand,
since the same expression means something else in another place: `f :: int` is the result of a
function, or a value that is sent, or a definition.
-/

namespace NativeInterface

/-! ## Outcomes that are kept -/

namespace Outcome
variable {ε α β γ δ : Type}

/-- Where `x` succeeds, `x'` does too, and the results are the same through `p`. -/
def Kept (p : α → β) (x x' : Except ε α) : Prop :=
  ∀ a, x = .ok a → ∃ a', x' = .ok a' ∧ p a' = p a

namespace Kept

theorem refl (p : α → β) (x : Except ε α) : Kept p x x :=
  fun a ha => ⟨a, ha, rfl⟩

theorem trans {p : α → β} {x y z : Except ε α} (hxy : Kept p x y) (hyz : Kept p y z) :
    Kept p x z := by
  intro a ha
  obtain ⟨b, hb, hab⟩ := hxy a ha
  obtain ⟨c, hc, hbc⟩ := hyz b hb
  exact ⟨c, hc, hbc.trans hab⟩

theorem ok {p : α → β} {a a' : α} (h : p a' = p a) : Kept p (.ok a : Except ε α) (.ok a') := by
  rintro b ⟨⟩
  exact ⟨a', rfl, h⟩

theorem bind {p : α → γ} {q : β → δ} {x x' : Except ε α} {f f' : α → Except ε β}
    (hx : Kept p x x') (hf : ∀ a a', p a' = p a → Kept q (f a) (f' a')) :
    Kept q (x >>= f) (x' >>= f') := by
  intro b hb
  obtain ⟨a, ha, hb⟩ := bind_eq_ok.mp hb
  obtain ⟨a', ha', heq⟩ := hx a ha
  obtain ⟨b', hb', heq'⟩ := hf a a' heq b hb
  exact ⟨b', bind_eq_ok.mpr ⟨a', ha', hb'⟩, heq'⟩

theorem bind_same {q : β → δ} (x : Except ε α) {f f' : α → Except ε β}
    (hf : ∀ a, Kept q (f a) (f' a)) : Kept q (x >>= f) (x >>= f') := by
  refine (refl id x).bind ?_
  intro a b hab
  obtain rfl : b = a := hab
  exact hf b

theorem mapM {p : β → γ} {f : α → Except ε β} {xs xs' : List α}
    (h : List.Forall₂ (fun x x' => Kept p (f x) (f x')) xs xs') :
    Kept (List.map p) (xs.mapM f) (xs'.mapM f) := by
  induction h with
  | nil => exact refl _ _
  | cons hx _ ih =>
    rw [List.mapM_cons, List.mapM_cons]
    refine hx.bind fun y y' hy => ih.bind fun ys ys' hys => ok ?_
    rw [List.map_cons, List.map_cons, hy, hys]

end Kept

/-- Only one element is changed. -/
theorem forall₂_middle {R : α → α → Prop} (hrefl : ∀ x, R x x) {x x' : α} (h : R x x')
    (front back : List α) : List.Forall₂ R (front ++ x :: back) (front ++ x' :: back) :=
  List.rel_append (List.forall₂_same.mpr fun x _ => hrefl x)
    (.cons h (List.forall₂_same.mpr fun x _ => hrefl x))

end Outcome

/-! ## Steps -/

namespace Expr

/-- A value with its type written out. -/
inductive ArgumentStep : Expr → Expr → Prop
  /-- `n` is `n :: n` -/
  | name (n : String) (p : Span) :
    ArgumentStep (ident n p) (typed (ident n p) (ident n p) p)
  /-- `[n]` is `n :: [n]` -/
  | list (n : String) (p q : Span) :
    ArgumentStep (list [ident n p] q) (typed (ident n p) (list [ident n p] q) q)

/-- A result with its type written out. -/
inductive ItemStep : Expr → Expr → Prop
  | value : ArgumentStep e e' → ItemStep e e'
  /-- `:s` is `:s :: label` -/
  | symbol (s : String) (p : Span) :
    ItemStep (atom s p) (typed (atom s p) (ident Record.labelType p) p)
  /-- `:s` is `s :: label` -/
  | bareSymbol (s : String) (p : Span) :
    ItemStep (atom s p) (typed (ident s p) (ident Record.labelType p) p)

/-- A clause with its items written out, or with its braces. -/
inductive ClauseStep : Expr → Expr → Prop
  | item : ItemStep e e' → ClauseStep e e'
  | part (front back : List Expr) (p : Span) : ItemStep e e' →
    ClauseStep (tuple (front ++ e :: back) p) (tuple (front ++ e' :: back) p)
  /-- `e` is `{e}` -/
  | braces : (∀ parts p, e ≠ tuple parts p) → ClauseStep e (tuple [e] e.span)

/-- A tree of `|` with these leaves, from left to right. -/
inductive IsTree : List Expr → Expr → Prop
  | leaf : (∀ a b p, e ≠ alt a b p) → IsTree [e] e
  | alt (p : Span) : IsTree ls a → IsTree rs b → IsTree (ls ++ rs) (alt a b p)

/-- A tree of clauses with other associations, or with a step of one of its clauses. -/
inductive ResultStep : Expr → Expr → Prop
  | reassociated : IsTree es e → IsTree es e' → ResultStep e e'
  | clause : (∀ a b p, e ≠ alt a b p) → ClauseStep e e' → ResultStep e e'
  | left (rhs : Expr) (p : Span) : ResultStep e e' → ResultStep (alt e rhs p) (alt e' rhs p)
  | right (lhs : Expr) (p : Span) : ResultStep e e' → ResultStep (alt lhs e p) (alt lhs e' p)

/-- A step in `head :: results` -/
inductive FunctionStep : Expr → Expr → Prop
  /-- `f` is `f()` -/
  | head (f : String) (results : Expr) (p q : Span) :
    FunctionStep (typed (ident f p) results q) (typed (call ⟨f, p⟩ [] p) results q)
  | argument (f : Ident) (front back : List Expr) (results : Expr) (p q : Span) :
    ArgumentStep e e' → FunctionStep (typed (call f (front ++ e :: back) p) results q)
      (typed (call f (front ++ e' :: back) p) results q)
  | results (head : Expr) (q : Span) : ResultStep e e' →
    FunctionStep (typed head e q) (typed head e' q)

/-- `a: 1, b: 2` as `{a, 1}, {b, 2}` -/
def groupings (pairs : List (Ident × Expr)) : List Expr :=
  pairs.map fun p => tuple [ident p.1.name p.1.span, p.2] p.1.span

/-- A step in the functions of a dirty declaration. -/
inductive MarksStep : List Expr → List Expr → Prop
  | groupings (pairs : List (Ident × Expr)) (p : Span) :
    MarksStep [keyword pairs p] (groupings pairs)
  | brackets (es : List Expr) (p : Span) : MarksStep es [list es p]
  | inBrackets {es es' : List Expr} (p : Span) : MarksStep es es' →
    MarksStep [list es p] [list es' p]
  | among {es es' : List Expr} (front back : List Expr) : MarksStep es es' →
    MarksStep (front ++ es ++ back) (front ++ es' ++ back)

end Expr

/-- A declaration with one of its short forms written out, or the same declaration in other
places. -/
inductive Declaration.Step : Declaration → Declaration → Prop
  | moved {d d' : Declaration} : d'.unplaced = d.unplaced → Step d d'
  | function {kind : Ident} {e e' : Expr} (p : Span) : kind.name = "spec" →
    e.FunctionStep e' → Step ⟨kind, [e], p⟩ ⟨kind, [e'], p⟩
  | type {kind : Ident} {es : List Expr} {body body' : Expr} (lhs : Expr) (p q : Span) :
    kind.name = "type" → Expr.IsTree es body → Expr.IsTree es body' →
    Step ⟨kind, [.typed lhs body q], p⟩ ⟨kind, [.typed lhs body' q], p⟩
  | sends {kind : Ident} {e e' : Expr} (p : Span) : kind.name = "sends" →
    e.ClauseStep e' → Step ⟨kind, [e], p⟩ ⟨kind, [e'], p⟩
  | dirty {kind : Ident} {es es' : List Expr} (e : Expr) (p : Span) : kind.name = "dirty" →
    Expr.MarksStep es es' → Step ⟨kind, e :: es, p⟩ ⟨kind, e :: es', p⟩

/-! ## Items, alternatives and marks -/

namespace Expr
variable {e e' : Expr} {R : Expr → Expr → Prop}

theorem ItemStep.items_eq (h : ItemStep e e') : e.items = [e] ∧ e'.items = [e'] := by
  cases h with
  | value h => cases h <;> exact ⟨rfl, rfl⟩
  | symbol | bareSymbol => exact ⟨rfl, rfl⟩

theorem ClauseStep.items (h : ClauseStep e e') (hrefl : ∀ e, R e e)
    (hstep : ∀ e e', ItemStep e e' → R e e') : List.Forall₂ R e.items e'.items := by
  cases h with
  | item h =>
    rw [h.items_eq.1, h.items_eq.2]
    exact .cons (hstep _ _ h) .nil
  | part front back p h => exact Outcome.forall₂_middle hrefl (hstep _ _ h) front back
  | braces h =>
    rw [items_of_ne_tuple h]
    exact .cons (hrefl e) .nil

theorem alternatives_of_ne_alt (h : ∀ a b p, e ≠ alt a b p) : e.alternatives = [e] := by
  rw [alternatives]
  exact h

theorem ItemStep.alternatives_eq (h : ItemStep e e') : e'.alternatives = [e'] := by
  cases h with
  | value h => cases h <;> rfl
  | symbol | bareSymbol => rfl

theorem ClauseStep.alternatives_eq (h : ClauseStep e e') : e'.alternatives = [e'] := by
  cases h with
  | item h => exact h.alternatives_eq
  | part | braces => rfl

theorem IsTree.alternatives_eq {es : List Expr} (h : IsTree es e) : e.alternatives = es := by
  induction h with
  | leaf he => exact alternatives_of_ne_alt he
  | alt p _ _ iha ihb => rw [alternatives, iha, ihb]

theorem eq_of_alternatives_eq (h : e'.alternatives = e.alternatives)
    (he : ∀ a b p, e ≠ alt a b p) : e' = e := by
  rw [alternatives_of_ne_alt he] at h
  cases e' with
  | alt a b p =>
    have hlength := congrArg List.length h
    have ha := List.length_pos_of_ne_nil (Record.alternatives_ne_nil a)
    have hb := List.length_pos_of_ne_nil (Record.alternatives_ne_nil b)
    rw [alternatives, List.length_append, List.length_singleton] at hlength
    omega
  | _ =>
    cases h
    rfl

/-- A step keeps the alternatives, or changes one of them. -/
theorem ResultStep.alternatives (h : ResultStep e e') (hrefl : ∀ e, R e e)
    (hstep : ∀ e e', ClauseStep e e' → R e e') :
    List.Forall₂ R e.alternatives e'.alternatives := by
  have hsame (e : Expr) : List.Forall₂ R e.alternatives e.alternatives :=
    List.forall₂_same.mpr fun e _ => hrefl e
  induction h with
  | reassociated h h' =>
    rw [h'.alternatives_eq, ← h.alternatives_eq]
    exact hsame _
  | clause he h =>
    rw [alternatives_of_ne_alt he, h.alternatives_eq]
    exact .cons (hstep _ _ h) .nil
  | left rhs p _ ih => exact List.rel_append ih (hsame rhs)
  | right lhs p _ ih => exact List.rel_append (hsame lhs) ih

end Expr

/-! ## What the readers make of a step -/

namespace Record
open NativeInterface.Expr NativeInterface.Outcome

variable {kind : String} {e e' : Expr}

theorem param_of_step (h : ArgumentStep e e') : param kind e' = param kind e := by
  cases h with
  | name n p => rw [param, param, ty]
  | list n p q =>
    rw [param, param, ty, ty]
    cases valueType kind n (.ident n p) <;> rfl

theorem resultItem_of_typed {lhs rhs : Expr} {p : Span} (hrhs : rhs.ident? ≠ some labelType)
    (hlhs : lhs.atom? = none) : resultItem kind (.typed lhs rhs p) =
      (do let p ← param kind (.typed lhs rhs p); .ok (.ofValue p.name p.type)) := by
  rw [resultItem, if_neg hrhs, if_neg (by simp [hlhs])]

theorem resultItem_of_step (h : ItemStep e e') :
    Kept id (resultItem kind e) (resultItem kind e') := by
  cases h with
  | symbol | bareSymbol => exact .ok rfl
  | value h =>
    have hparam : param kind e' = param kind e := param_of_step h
    cases h with
    | name n p =>
      -- A value that has the name of labels would have their type.
      by_cases hn : n = labelType
      · intro i hi
        obtain ⟨q, hq, -⟩ := bind_eq_ok.mp hi
        obtain ⟨t, ht, -⟩ := bind_eq_ok.mp hq
        rw [valueType, if_pos hn] at ht
        cases ht
      · have hrhs : (Expr.ident n p).ident? ≠ some labelType := fun h => hn (Option.some.inj h)
        rw [resultItem_of_typed hrhs rfl, hparam]
        exact .refl _ _
    | list n p q =>
      rw [resultItem_of_typed (fun h => by cases h) rfl, hparam]
      exact .refl _ _

theorem clause_of_step (h : ClauseStep e e') :
    Kept RawClause.unplaced (clause kind e) (clause kind e') := by
  rw [clause_eq, clause_eq]
  have hitems := h.items (fun e => Kept.refl id (resultItem kind e)) fun _ _ => resultItem_of_step
  refine (Kept.mapM hitems).bind fun is is' his => .ok ?_
  rw [List.map_id, List.map_id] at his
  rw [RawClause.unplaced, RawClause.unplaced, his]

theorem clauses_of_step (h : ResultStep e e') :
    Kept (List.map RawClause.unplaced) (e.alternatives.mapM (clause kind))
      (e'.alternatives.mapM (clause kind)) :=
  .mapM (h.alternatives (fun _ => .refl _ _) fun _ _ => clause_of_step)

theorem readFunction_of_step {kind : Ident} {p : Span} (h : FunctionStep e e') :
    Kept unplaced (readFunction ⟨kind, [e], p⟩) (readFunction ⟨kind, [e'], p⟩) := by
  cases h with
  | head f results q r => exact .refl _ _
  | @argument x x' f front back results q r h =>
    have hread (args : List Expr) : readFunction ⟨kind, [.typed (.call f args q) results r], p⟩ =
        (do let params ← args.mapM (param kind.name)
            let cs ← results.alternatives.mapM (clause kind.name)
            .ok (.function ⟨f.name, params, cs, r⟩)) := rfl
    rw [hread, hread, List.mapM_append, List.mapM_append, List.mapM_cons, List.mapM_cons,
      param_of_step h]
    exact .refl _ _
  | results head q h =>
    refine .bind_same (functionHead kind.name head) fun nameArgs => ?_
    obtain ⟨name, args⟩ := nameArgs
    refine .bind_same (args.mapM (param kind.name)) fun params => ?_
    refine (clauses_of_step h).bind fun cs cs' hcs => .ok ?_
    simp only [unplaced, RawFunction.unplaced, hcs]

theorem typeBody_of_trees {name : String} {es : List Expr} (h : IsTree es e) (h' : IsTree es e') :
    typeBody kind name e' = typeBody kind name e := by
  have hsame : e'.alternatives = e.alternatives := h'.alternatives_eq.trans h.alternatives_eq.symm
  have halt (a b : Expr) (p : Span) : typeBody kind name (.alt a b p) =
      (do .ok (.enum ⟨name, ← (Expr.alt a b p).alternatives.mapM (variant kind)⟩)) := rfl
  -- Trees with the same leaves are the same leaf, or both have branches.
  cases h with
  | leaf he => rw [eq_of_alternatives_eq hsame he]
  | alt p ha hb =>
    cases e' with
    | alt a' b' p' => rw [halt, halt, hsame]
    | _ => cases eq_of_alternatives_eq hsame.symm fun _ _ _ h => by cases h

theorem readType_of_trees {kind : Ident} {lhs : Expr} {es : List Expr} {p q : Span}
    (h : IsTree es e) (h' : IsTree es e') :
    readType ⟨kind, [.typed lhs e' q], p⟩ = readType ⟨kind, [.typed lhs e q], p⟩ := by
  cases lhs with
  | ident name r => exact typeBody_of_trees h h'
  | _ => rfl

theorem readSends_of_step {kind : Ident} {p : Span} (h : ClauseStep e e') :
    Kept unplaced (readSends ⟨kind, [e], p⟩) (readSends ⟨kind, [e'], p⟩) := by
  have hclause : Kept RawClause.unplaced (clause kind.name e) (clause kind.name e') :=
    clause_of_step h
  exact hclause.bind fun c c' hc => .ok (congrArg Record.sends hc)

section
variable {scheduler : DirtyKind}

theorem marksOfAll_singleton (e : Expr) :
    marksOfAll kind scheduler [e] = marks kind scheduler e := by
  rw [marksOfAll, marksOfAll]
  cases marks kind scheduler e with
  | error fault => rfl
  | ok found => exact congrArg Except.ok (List.append_nil found)

theorem marksOfAll_append (es fs : List Expr) : marksOfAll kind scheduler (es ++ fs) =
    (do .ok ((← marksOfAll kind scheduler es) ++ (← marksOfAll kind scheduler fs))) := by
  induction es with
  | nil =>
    rw [List.nil_append, marksOfAll]
    cases marksOfAll kind scheduler fs <;> rfl
  | cons e es ih =>
    rw [List.cons_append, marksOfAll, marksOfAll, ih]
    cases marks kind scheduler e <;> cases marksOfAll kind scheduler es <;>
      cases marksOfAll kind scheduler fs <;> try rfl
    exact congrArg Except.ok (List.append_assoc ..).symm

theorem marksOfAll_groupings (pairs : List (Ident × Expr)) :
    marksOfAll kind scheduler (groupings pairs) = pairMarks kind scheduler pairs := by
  induction pairs with
  | nil => rfl
  | cons p pairs ih =>
    rw [pairMarks, List.mapM_cons, ← pairMarks, ← ih, groupings, List.map_cons, ← groupings,
      marksOfAll, marks]
    cases arity kind p.2 <;> rfl

theorem marksOfAll_of_step {es es' : List Expr} (h : MarksStep es es') :
    marksOfAll kind scheduler es' = marksOfAll kind scheduler es := by
  induction h with
  | groupings pairs p => rw [marksOfAll_groupings, marksOfAll_singleton, marks]
  | brackets es p => rw [marksOfAll_singleton, marks]
  | inBrackets p _ ih => rw [marksOfAll_singleton, marksOfAll_singleton, marks, marks, ih]
  | among front back _ ih => simp only [marksOfAll_append, ih]

end

theorem readDirty_of_step {kind : Ident} {es es' : List Expr} {p : Span} (h : MarksStep es es') :
    Kept unplaced (readDirty ⟨kind, e :: es, p⟩) (readDirty ⟨kind, e :: es', p⟩) := by
  unfold readDirty
  dsimp only
  cases e.symbol? with
  | none => exact .refl _ _
  | some name =>
    dsimp only
    cases DirtyKind.ofText? name with
    | none => exact .refl _ _
    | some scheduler =>
      dsimp only
      rw [marksOfAll_of_step h]
      refine .bind_same _ fun found => ?_
      split
      · exact fun _ h => by cases h
      · exact .refl _ _

theorem kept_of_moved {d d' : Declaration} (h : d'.unplaced = d.unplaced) :
    Kept unplaced (ofDeclaration d) (ofDeclaration d') := by
  intro r hr
  have hforget := ofDeclaration_unplaced d'
  rw [h, ofDeclaration_unplaced, hr] at hforget
  cases hr' : ofDeclaration d' with
  | error fault =>
    rw [hr'] at hforget
    cases hforget
  | ok r' =>
    rw [hr'] at hforget
    exact ⟨r', rfl, (Except.ok.inj hforget).symm⟩

theorem kept_of_step {d d' : Declaration} (h : d.Step d') :
    Kept unplaced (ofDeclaration d) (ofDeclaration d') := by
  cases h with
  | moved h => exact kept_of_moved h
  | function p hkind h =>
    rw [ofDeclaration, ofDeclaration, hkind]
    exact readFunction_of_step h
  | type lhs p q hkind h h' =>
    rw [ofDeclaration, ofDeclaration, hkind]
    dsimp only
    rw [readType_of_trees h h']
    exact .refl _ _
  | sends p hkind h =>
    rw [ofDeclaration, ofDeclaration, hkind]
    exact readSends_of_step h
  | dirty e p hkind h =>
    rw [ofDeclaration, ofDeclaration, hkind]
    exact readDirty_of_step h

/-- A declaration that has a meaning keeps it, up to places, however many of its short forms are
written out. -/
theorem ofDeclaration_of_steps {d d' : Declaration} {r : Record}
    (h : Relation.ReflTransGen Declaration.Step d d') (hr : ofDeclaration d = .ok r) :
    ∃ r', ofDeclaration d' = .ok r' ∧ r'.unplaced = r.unplaced := by
  have hkept : Kept unplaced (ofDeclaration d) (ofDeclaration d') := by
    induction h with
    | refl => exact .refl _ _
    | tail _ hstep ih => exact ih.trans (kept_of_step hstep)
  exact hkept r hr

/-- `spec f :: :ok | {:error, [n]} | k` is
`spec f() :: ok :: label | ({:error :: label, n :: [n]} | {k :: k})`, and `dirty :cpu, a: 1, b: 2`
is `dirty :cpu, [[{a, 1}, {b, 2}]]` in other places. -/
theorem ofDeclaration_of_steps_long :
    let word (name : String) : Expr := .ident name {}
    let symbol (name : String) : Expr := .atom name {}
    let typed (lhs rhs : Expr) : Expr := .typed lhs rhs {}
    let spec (head results : Expr) : Declaration := ⟨⟨"spec", {}⟩, [typed head results], {}⟩
    let dirty (p : Span) (es : List Expr) : Declaration := ⟨⟨"dirty", p⟩, .atom "cpu" p :: es, p⟩
    let short := spec (word "f") (.alt (.alt (symbol "ok")
      (.tuple [symbol "error", .list [word "n"] {}] {}) {}) (word "k") {})
    let long := spec (.call ⟨"f", {}⟩ [] {}) (.alt (typed (word "ok") (word "label"))
      (.alt (.tuple [typed (symbol "error") (word "label"),
        typed (word "n") (.list [word "n"] {})] {}) (.tuple [typed (word "k") (word "k")] {}) {}) {})
    let marks := dirty {} [.keyword [(⟨"a", {}⟩, .int 1 {}), (⟨"b", {}⟩, .int 2 {})] {}]
    let p : Span := ⟨2, 1, 2, 3⟩
    let pairs := dirty p [.list [.list [.tuple [.ident "a" p, .int 1 p] p,
      .tuple [.ident "b" p, .int 2 p] p] p] p]
    (∃ r r', ofDeclaration short = .ok r ∧ ofDeclaration long = .ok r' ∧
      r'.unplaced = r.unplaced) ∧
    ∃ r r', ofDeclaration marks = .ok r ∧ ofDeclaration pairs = .ok r' ∧
      r'.unplaced = r.unplaced := by
  intro word symbol typed spec dirty short long marks p pairs
  have hshort : ofDeclaration short = .ok _ := rfl
  have hmarks : ofDeclaration marks = .ok _ := rfl
  have hturn {a b c : Expr} (ha : Expr.IsTree [a] a) (hb : Expr.IsTree [b] b)
      (hc : Expr.IsTree [c] c) :
      Expr.ResultStep (.alt (.alt a b {}) c {}) (.alt a (.alt b c {}) {}) := by
    have hright : Expr.IsTree ([a] ++ ([b] ++ [c])) (.alt a (.alt b c {}) {}) :=
      .alt {} ha (.alt {} hb hc)
    exact .reassociated (.alt {} (.alt {} ha hb) hc) hright
  have hlong : Relation.ReflTransGen Declaration.Step short long := by
    refine .head (.function {} rfl (.head "f" _ {} {})) ?_
    refine .head (.function {} rfl (.results _ {} (hturn (.leaf fun _ _ _ h => by cases h)
      (.leaf fun _ _ _ h => by cases h) (.leaf fun _ _ _ h => by cases h)))) ?_
    refine .head (.function {} rfl (.results _ {} (.left _ {} (.clause
      (fun _ _ _ h => by cases h) (.item (.bareSymbol "ok" {})))))) ?_
    refine .head (.function {} rfl (.results _ {} (.right _ {} (.left _ {} (.clause
      (fun _ _ _ h => by cases h) (.part [] _ {} (.symbol "error" {}))))))) ?_
    refine .head (.function {} rfl (.results _ {} (.right _ {} (.left _ {} (.clause
      (fun _ _ _ h => by cases h) (.part [_] [] {} (.value (.list "n" {} {})))))))) ?_
    refine .head (.function {} rfl (.results _ {} (.right _ {} (.right _ {} (.clause
      (fun _ _ _ h => by cases h) (.braces fun _ _ h => by cases h)))))) ?_
    exact .single (.function {} rfl (.results _ {} (.right _ {} (.right _ {} (.clause
      (fun _ _ _ h => by cases h) (.part [] [] {} (.value (.name "k" {}))))))))
  have hpairs : Relation.ReflTransGen Declaration.Step marks pairs := by
    refine .head (.dirty _ {} rfl (.groupings _ {})) ?_
    refine .head (.dirty _ {} rfl (.brackets _ {})) ?_
    refine .head (.dirty _ {} rfl (.brackets _ {})) ?_
    exact .single (.moved rfl)
  obtain ⟨r, hr, hsame⟩ := ofDeclaration_of_steps hlong hshort
  obtain ⟨r', hr', hsame'⟩ := ofDeclaration_of_steps hpairs hmarks
  exact ⟨⟨_, r, hshort, hr, hsame⟩, _, r', hmarks, hr', hsame'⟩

end Record

end NativeInterface
