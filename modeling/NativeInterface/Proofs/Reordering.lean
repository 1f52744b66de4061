import NativeInterface.Proofs.Effects

/-!
# The order of declarations

Two neighbouring declarations of different kinds may change places, unless one of them declares a
type that the other may need. What a record puts in does not depend on a record of another kind in
front of it (`Builder.put_comm`). Its check reads the scope, which only types change and which only
grows, and for a function the functions so far.
-/

namespace NativeInterface

namespace Scope
variable {s s' : Scope}

theorem knows_mono (h : s.declared ⊆ s'.declared) {name : String} (hknows : s.knows name) :
    s'.knows name := by
  simp only [knows, Bool.or_eq_true, isDeclared_iff] at hknows ⊢
  exact hknows.imp_right (@h name)

theorem checkType_mono (h : s.declared ⊆ s'.declared) {usedIn : String} {span : Span} {t : Ty}
    (hcheck : s.checkType usedIn span t = .ok ()) : s'.checkType usedIn span t = .ok () := by
  unfold checkType at hcheck ⊢
  split
  · rfl
  · rename_i leaf hleaf
    rw [hleaf] at hcheck
    dsimp only at hcheck
    split at hcheck
    · rename_i hknows
      exact if_pos (knows_mono h hknows)
    · cases hcheck

/-- Types that are known stay known when others are declared. -/
theorem checkTypes_mono (h : s.declared ⊆ s'.declared) {usedIn : String} {span : Span}
    {ts : List Ty} (hcheck : s.checkTypes usedIn span ts = .ok ()) :
    s'.checkTypes usedIn span ts = .ok () := by
  apply Outcome.forM_eq_ok.mpr
  intro t ht
  exact checkType_mono h (Outcome.forM_eq_ok.mp hcheck t ht)

end Scope

/-- The kinds of declarations that are never refused once they are read. -/
def Record.uncheckedKinds : List String :=
  ["module", "interface", "state_type", "dirty", "callback"]

namespace Builder
variable {b c : Builder} {r r₁ r₂ : Record} {span span₁ span₂ : Span}

/-! ## What a record leaves alone -/

theorem scope_put (h : r.kind ≠ "type") : (b.put r).scope = b.scope := by
  cases r with
  | struct | enum => exact absurd rfl h
  | _ => rfl

theorem functions_put (h : r.kind ≠ "spec") : (b.put r).functions = b.functions := by
  cases r with
  | function => exact absurd rfl h
  | _ => rfl

theorem declared_put : b.scope.declared ⊆ (b.put r).scope.declared := by
  intro name hname
  cases r with
  | struct | enum => exact Scope.mem_declare.mpr (.inr hname)
  | _ => exact hname

/-- Records of different kinds are put in different places. -/
theorem put_comm (h : r₁.kind ≠ r₂.kind) : (b.put r₁).put r₂ = (b.put r₂).put r₁ := by
  cases r₁ <;> cases r₂ <;> try rfl
  -- what is left are two records of one kind
  all_goals exact absurd rfl h

/-! ## What a check reads -/

theorem admits_of_unchecked (h : r.kind ∈ Record.uncheckedKinds) : b.Admits span r := by
  cases r with
  | moduleName | interface | stateType | dirty | callback => trivial
  | _ => simp [Record.kind, Record.uncheckedKinds] at h

theorem admits_congr (hscope : b.scope = c.scope)
    (hfunctions : r.kind = "spec" → b.functions = c.functions) :
    b.Admits span r ↔ c.Admits span r := by
  cases r with
  | function f => simp only [Admits, hasFunction, hscope, hfunctions rfl]
  | _ => simp only [Admits, hscope]

/-- A record that declares no type is admitted where more types are declared. -/
theorem Admits.mono (h : b.Admits span r) (hr : r.kind ≠ "type")
    (hscope : b.scope.declared ⊆ c.scope.declared)
    (hfunctions : r.kind = "spec" → b.functions = c.functions) : c.Admits span r := by
  cases r with
  | moduleName | interface | stateType | dirty | callback => trivial
  | function f =>
    refine ⟨?_, Scope.checkTypes_mono hscope h.2.1, h.2.2⟩
    rw [hasFunction, ← hfunctions rfl]
    exact h.1
  | struct | enum => exact absurd rfl hr
  | sends c => exact ⟨Scope.checkTypes_mono hscope h.1, h.2⟩

/-! ## Two records -/

/-- Only a record that declares a type can be needed by the record behind it. -/
theorem admits_swap (hne : r₁.kind ≠ r₂.kind)
    (hfree : r₁.kind ≠ "type" ∨ r₂.kind ∈ Record.uncheckedKinds)
    (h₁ : b.Admits span₁ r₁) (h₂ : (b.put r₁).Admits span₂ r₂) :
    b.Admits span₂ r₂ ∧ (b.put r₂).Admits span₁ r₁ := by
  rcases hfree with htype | hunchecked
  · constructor
    · exact (admits_congr (scope_put htype) fun hspec => functions_put (hspec ▸ hne)).mp h₂
    · exact h₁.mono htype declared_put fun hspec => (functions_put (hspec ▸ hne.symm)).symm
  · have htype : r₂.kind ≠ "type" := fun h => absurd hunchecked (h ▸ by decide)
    have hspec : r₂.kind ≠ "spec" := fun h => absurd hunchecked (h ▸ by decide)
    refine ⟨admits_of_unchecked hunchecked, ?_⟩
    exact (admits_congr (scope_put htype) fun _ => functions_put hspec).mpr h₁

/-- The same for declarations: the builder behind both is the same. -/
theorem add_swap {d₁ d₂ : Declaration} {b' : Builder} (hne : d₁.kind.name ≠ d₂.kind.name)
    (hfree : d₁.kind.name ≠ "type" ∨ d₂.kind.name ∈ Record.uncheckedKinds)
    (h : [d₁, d₂].foldlM add b = .ok b') : [d₂, d₁].foldlM add b = .ok b' := by
  simp only [List.foldlM_cons, List.foldlM_nil, Outcome.bind_eq_ok, add_eq_ok_iff] at h ⊢
  obtain ⟨_, ⟨r₁, hr₁, h₁, rfl⟩, _, ⟨r₂, hr₂, h₂, rfl⟩, hb'⟩ := h
  rw [Record.kind_of_ofDeclaration hr₁, Record.kind_of_ofDeclaration hr₂] at hne hfree
  obtain ⟨h₂, h₁⟩ := admits_swap hne hfree h₁ h₂
  refine ⟨_, ⟨r₂, hr₂, h₂, rfl⟩, _, ⟨r₁, hr₁, h₁, rfl⟩, ?_⟩
  rwa [put_comm hne.symm]

end Builder

namespace Surface

/-- Two declarations that change places between any others. -/
theorem build_swap {name : String} {pre post : List Declaration} {d₁ d₂ : Declaration}
    {s : Surface} (hne : d₁.kind.name ≠ d₂.kind.name)
    (hfree : d₁.kind.name ≠ "type" ∨ d₂.kind.name ∈ Record.uncheckedKinds)
    (h : build name (pre ++ [d₁, d₂] ++ post) = .ok s) :
    build name (pre ++ [d₂, d₁] ++ post) = .ok s := by
  simp only [build, List.foldlM_append, Outcome.bind_eq_ok] at h ⊢
  obtain ⟨last, ⟨mid, ⟨first, hpre, hmid⟩, hpost⟩, hs⟩ := h
  exact ⟨last, ⟨mid, ⟨first, hpre, Builder.add_swap hne hfree hmid⟩, hpost⟩, hs⟩

/-- **Order matters only where a type is declared.** Neighbours of different kinds may change
places if neither declares a type, or if one does and the other is never refused; and a type may be
declared earlier than a function or a message in front of it. -/
theorem build_order (name : String) (pre post : List Declaration) (d₁ d₂ : Declaration)
    (hne : d₁.kind.name ≠ d₂.kind.name) :
    (d₁.kind.name ≠ "type" ∧ d₂.kind.name ≠ "type" ∨
        d₁.kind.name = "type" ∧
          d₂.kind.name ∈ ["module", "interface", "state_type", "dirty", "callback"] ∨
        d₂.kind.name = "type" ∧
          d₁.kind.name ∈ ["module", "interface", "state_type", "dirty", "callback"] →
      ∀ s, build name (pre ++ [d₁, d₂] ++ post) = .ok s ↔
        build name (pre ++ [d₂, d₁] ++ post) = .ok s) ∧
    (d₁.kind.name ∈ ["spec", "sends"] → d₂.kind.name = "type" →
      ∀ s, build name (pre ++ [d₁, d₂] ++ post) = .ok s →
        build name (pre ++ [d₂, d₁] ++ post) = .ok s) := by
  constructor
  · rintro (⟨h₁, h₂⟩ | ⟨h₁, h₂⟩ | ⟨h₂, h₁⟩) s
    · exact ⟨build_swap hne (.inl h₁), build_swap hne.symm (.inl h₂)⟩
    · exact ⟨build_swap hne (.inr h₂), build_swap hne.symm (.inl (h₁ ▸ hne.symm))⟩
    · exact ⟨build_swap hne (.inl (h₂ ▸ hne)), build_swap hne.symm (.inr h₁)⟩
  · rintro - htype s
    exact build_swap hne (.inl (htype ▸ hne))

/-- A function in front of a type that it does not need, between declarations that it does need and
that need it; and a function beside its mark. -/
theorem build_order_walk :
    let word (name : String) : Expr := .ident name {}
    let line (kind : String) (payload : List Expr) : Declaration := ⟨⟨kind, {}⟩, payload, {}⟩
    let tint := line "type" [.typed (word "tint") (.alt (.atom "red" {}) (.atom "blue" {}) {}) {}]
    let point := line "type" [.typed (word "point")
      (.map ["Point"] [(⟨"x", {}⟩, word "int"), (⟨"tint", {}⟩, word "tint")] {}) {}]
    let walk := line "spec" [.typed (.call ⟨"walk", {}⟩ [word "tint"] {}) (.atom "ok" {}) {}]
    let mark := line "dirty" [.atom "io" {}, .keyword [(⟨"walk", {}⟩, .int 1 {})] {}]
    let sends := line "sends" [.tuple [.atom "at" {}, word "point"] {}]
    ∃ s, build "m" ([tint] ++ [walk, point] ++ [mark, sends]) = .ok s ∧
      build "m" ([tint] ++ [point, walk] ++ [mark, sends]) = .ok s ∧
      build "m" ([tint, point] ++ [mark, walk] ++ [sends]) = .ok s ∧ s.functions.length = 1 := by
  intro word line tint point walk mark sends
  have h : build "m" ([tint] ++ [walk, point] ++ [mark, sends]) = .ok _ := rfl
  have hearlier :=
    (build_order "m" [tint] [mark, sends] walk point (by decide)).2 (by decide) rfl _ h
  refine ⟨_, h, hearlier, ?_, rfl⟩
  exact ((build_order "m" [tint, point] [sends] walk mark (by decide)).1
    (.inl ⟨by decide, by decide⟩) _).mp hearlier

end Surface
end NativeInterface
