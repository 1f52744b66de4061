import NativeInterface.Proofs.Grammar

/-!
# The tokens of a surface form

The surface form of an expression has one sequence of tokens, and a tree that derives from any
tokens derives from these: they are the ones read, less the commas behind the last of several
expressions.
-/

namespace NativeInterface
open Token (Kind)

namespace Grammar

/-- The given kinds with `sep` between them. -/
def separated (sep : Kind) : List (List Kind) → List Kind
  | [] => []
  | [ks] => ks
  | ks :: kss => ks ++ sep :: separated sep kss

theorem separated_cons {sep : Kind} {ks : List Kind} {kss : List (List Kind)} (h : kss ≠ []) :
    separated sep (ks :: kss) = ks ++ sep :: separated sep kss := by
  cases kss with
  | nil => exact absurd rfl h
  | cons => rfl

theorem separated_concat {sep : Kind} {kss : List (List Kind)} (h : kss ≠ []) (ls : List Kind) :
    separated sep (kss ++ [ls]) = separated sep kss ++ sep :: ls := by
  induction kss with
  | nil => exact absurd rfl h
  | cons ks kss ih =>
    rw [List.cons_append, separated_cons (by simp)]
    cases kss with
    | nil => rfl
    | cons ks' kss =>
      have hcons : separated sep (ks :: ks' :: kss) = ks ++ sep :: separated sep (ks' :: kss) := rfl
      rw [ih (by simp), hcons, List.append_assoc, List.cons_append]

/-- The kinds of a dotted name. -/
def nameKinds (parts : List String) : List Kind :=
  separated .dot (parts.map fun part => [.segment part])

end Grammar

namespace Expr
open Grammar

mutual

/-- The kinds of the tokens of a surface form. -/
def kinds : Expr → List Kind
  | ident name _ => [.identifier name]
  | dotted parts _ => nameKinds parts
  | atom name _ => [.atom name]
  | int value _ => [.integer value]
  | str value _ => [.string value]
  | list items _ => .lbracket :: (separated .comma (kindsOfEach items) ++ [.rbracket])
  | tuple items _ => .lbrace :: (separated .comma (kindsOfEach items) ++ [.rbrace])
  | call name args _ =>
    .identifier name.name :: .lparen :: (separated .comma (kindsOfEach args) ++ [.rparen])
  | typed lhs rhs _ => lhs.kinds ++ .colonColon :: rhs.kinds
  | alt lhs rhs _ => lhs.kinds ++ .pipe :: rhs.kinds
  | map name entries _ =>
    .percent :: (nameKinds name ++
      .lbrace :: (separated .comma (kindsOfPairs entries) ++ [.rbrace]))
  | keyword pairs _ => separated .comma (kindsOfPairs pairs)

def kindsOfEach : List Expr → List (List Kind)
  | [] => []
  | e :: es => e.kinds :: kindsOfEach es

def kindsOfPairs : List (Ident × Expr) → List (List Kind)
  | [] => []
  | (key, value) :: rest => (.key key.name :: value.kinds) :: kindsOfPairs rest

end

theorem kindsOfEach_append (es es' : List Expr) :
    kindsOfEach (es ++ es') = kindsOfEach es ++ kindsOfEach es' := by
  induction es with
  | nil => rfl
  | cons e es ih => rw [List.cons_append, kindsOfEach, kindsOfEach, ih, List.cons_append]

end Expr

/-- The kinds of the tokens of a declaration. -/
def Declaration.kinds (d : Declaration) : List Kind :=
  .identifier d.kind.name :: Grammar.separated .comma (Expr.kindsOfEach d.payload)

namespace Grammar

theorem IsName.nameKinds_eq {ks : List Kind} {parts : List String} (h : IsName ks parts) :
    nameKinds parts = ks := by
  induction h with
  | one => rfl
  | @cons ks parts part h ih =>
    have hparts : parts ≠ [] := by cases h <;> simp
    rw [nameKinds, List.map_cons, separated_cons (by simpa using hparts), ← nameKinds, ih]
    rfl

theorem IsExprs.kindsOfEach_ne_nil {ks : List Kind} {es : List Expr} (h : IsExprs false ks es) :
    Expr.kindsOfEach es ≠ [] := by
  cases h <;> simp [Expr.kindsOfEach]

theorem IsPairs.kindsOfPairs_ne_nil {ks : List Kind} {pairs : List (Ident × Expr)}
    (h : IsPairs false ks pairs) : Expr.kindsOfPairs pairs ≠ [] := by
  cases h <;> simp [Expr.kindsOfPairs]

mutual

theorem IsExpr.canonical {ks : List Kind} {e : Expr} :
    IsExpr false ks e → IsExpr false e.kinds e ∧ e.kinds.Sublist ks
  | .plain h => ⟨.plain h.canonical.1, h.canonical.2⟩
  | .typed h h' =>
    ⟨.typed h.canonical.1 h'.canonical.1, h.canonical.2.append (h'.canonical.2.cons_cons _)⟩

theorem IsAlt.canonical {ks : List Kind} {e : Expr} :
    IsAlt false ks e → IsAlt false e.kinds e ∧ e.kinds.Sublist ks
  | .plain h => ⟨.plain h.canonical.1, h.canonical.2⟩
  | .alt h h' =>
    ⟨.alt h.canonical.1 h'.canonical.1, h.canonical.2.append (h'.canonical.2.cons_cons _)⟩

theorem IsPrimary.canonical {ks : List Kind} {e : Expr} :
    IsPrimary false ks e → IsPrimary false e.kinds e ∧ e.kinds.Sublist ks
  | .ident => ⟨.ident, .refl _⟩
  | .atom => ⟨.atom, .refl _⟩
  | .int => ⟨.int, .refl _⟩
  | .str => ⟨.str, .refl _⟩
  | .dotted h => by
    rw [Expr.kinds, h.nameKinds_eq]
    exact ⟨.dotted h, .refl _⟩
  | .call h => ⟨.call h.canonical.1, (((h.canonical.2.append (.refl _)).cons_cons _).cons_cons _)⟩
  | .list h => ⟨.list h.canonical.1, (h.canonical.2.append (.refl _)).cons_cons _⟩
  | .tuple h => ⟨.tuple h.canonical.1, (h.canonical.2.append (.refl _)).cons_cons _⟩
  | .map h h' => by
    have hentries := (h'.canonical.2.append (.refl [.rbrace])).cons_cons .lbrace
    rw [Expr.kinds, h.nameKinds_eq]
    exact ⟨.map h h'.canonical.1, ((List.Sublist.refl _).append hentries).cons_cons _⟩

theorem IsEntries.canonical {ks : List Kind} {pairs : List (Ident × Expr)} :
    IsEntries false ks pairs → IsEntries false (separated .comma (Expr.kindsOfPairs pairs)) pairs ∧
      (separated .comma (Expr.kindsOfPairs pairs)).Sublist ks
  | .none => ⟨.none, .refl _⟩
  | .some h => ⟨.some h.canonical.1, h.canonical.2⟩

theorem IsExprs.canonical {ks : List Kind} {es : List Expr} :
    IsExprs false ks es → IsExprs false (separated .comma (Expr.kindsOfEach es)) es ∧
      (separated .comma (Expr.kindsOfEach es)).Sublist ks
  | .one h => ⟨.one h.canonical.1, h.canonical.2⟩
  | .cons h h' => by
    rw [Expr.kindsOfEach, separated_cons h'.kindsOfEach_ne_nil]
    exact ⟨.cons h.canonical.1 h'.canonical.1, h.canonical.2.append (h'.canonical.2.cons_cons _)⟩

theorem IsPairs.canonical {ks : List Kind} {pairs : List (Ident × Expr)} :
    IsPairs false ks pairs → IsPairs false (separated .comma (Expr.kindsOfPairs pairs)) pairs ∧
      (separated .comma (Expr.kindsOfPairs pairs)).Sublist ks
  | .one h => ⟨.one h.canonical.1, h.canonical.2.cons_cons _⟩
  | .cons h h' => by
    rw [Expr.kindsOfPairs, separated_cons h'.kindsOfPairs_ne_nil]
    exact ⟨.cons h.canonical.1 h'.canonical.1,
      (h.canonical.2.append (h'.canonical.2.cons_cons _)).cons_cons _⟩

theorem IsPayload.canonical {ks : List Kind} {es : List Expr} :
    IsPayload false ks es → IsPayload false (separated .comma (Expr.kindsOfEach es)) es ∧
      (separated .comma (Expr.kindsOfEach es)).Sublist ks
  | .exprs h => ⟨.exprs h.canonical.1, h.canonical.2⟩
  | .comma h => ⟨.exprs h.canonical.1, h.canonical.2.trans (List.sublist_append_left ..)⟩
  | .exprsPairs h h' => by
    rw [Expr.kindsOfEach_append, Expr.kindsOfEach, Expr.kindsOfEach,
      separated_concat h.kindsOfEach_ne_nil, Expr.kinds]
    exact ⟨.exprsPairs h.canonical.1 h'.canonical.1,
      h.canonical.2.append (h'.canonical.2.cons_cons _)⟩
  | .pairs h => ⟨.pairs h.canonical.1, h.canonical.2⟩

theorem IsItems.canonical {ks : List Kind} {es : List Expr} :
    IsItems false ks es → IsItems false (separated .comma (Expr.kindsOfEach es)) es ∧
      (separated .comma (Expr.kindsOfEach es)).Sublist ks
  | .none => ⟨.none, .refl _⟩
  | .some h => ⟨.some h.canonical.1, h.canonical.2⟩

end

theorem IsDeclaration.canonical {ks : List Kind} {d : Declaration} (h : IsDeclaration false ks d) :
    IsDeclaration false d.kinds d ∧ d.kinds.Sublist ks := by
  cases h with
  | bare => exact ⟨.bare, .refl _⟩
  | payload h => exact ⟨.payload h.canonical.1, h.canonical.2.cons_cons _⟩

/-! ## Last tokens -/

/-- The last of the kinds does not continue its line. -/
def EndsLast (ks : List Kind) : Prop := ∃ k, ks.getLast? = some k ∧ k.continuesLine = false

theorem EndsLast.append_left {ls : List Kind} (h : EndsLast ls) (ks : List Kind) :
    EndsLast (ks ++ ls) := by
  obtain ⟨k, hk, hlast⟩ := h
  exact ⟨k, by rw [List.getLast?_append, hk]; rfl, hlast⟩

theorem EndsLast.cons {ks : List Kind} (h : EndsLast ks) (k : Kind) : EndsLast (k :: ks) :=
  h.append_left [k]

section
variable {ks : List Kind} {e : Expr}

theorem IsName.endsLast {parts : List String} (h : IsName ks parts) : EndsLast ks := by
  induction h with
  | one => exact ⟨_, rfl, rfl⟩
  | cons _ ih => exact (ih.cons _).cons _

theorem endsLast_concat {k : Kind} (hk : k.continuesLine = false) (ks : List Kind) :
    EndsLast (ks ++ [k]) :=
  EndsLast.append_left ⟨k, rfl, hk⟩ ks

theorem IsPrimary.endsLast (h : IsPrimary false ks e) : EndsLast ks := by
  cases h with
  | ident | atom | int | str => exact ⟨_, rfl, rfl⟩
  | dotted h => exact h.endsLast
  | call => exact ((endsLast_concat rfl _).cons _).cons _
  | list | tuple => exact (endsLast_concat rfl _).cons _
  | map => exact (((endsLast_concat rfl _).cons _).append_left _).cons _

theorem IsAlt.endsLast {ks : List Kind} {e : Expr} : IsAlt false ks e → EndsLast ks
  | .plain h => h.endsLast
  | .alt _ h => (h.endsLast.cons _).append_left _

theorem IsExpr.endsLast {ks : List Kind} {e : Expr} : IsExpr false ks e → EndsLast ks
  | .plain h => h.endsLast
  | .typed _ h => (h.endsLast.cons _).append_left _

theorem IsExprs.endsLast {ks : List Kind} {es : List Expr} : IsExprs false ks es → EndsLast ks
  | .one h => h.endsLast
  | .cons _ h => (h.endsLast.cons _).append_left _

theorem IsPairs.endsLast {ks : List Kind} {pairs : List (Ident × Expr)} :
    IsPairs false ks pairs → EndsLast ks
  | .one h => h.endsLast.cons _
  | .cons _ h => ((h.endsLast.cons _).append_left _).cons _

/-- Without a comma at its end, a payload continues no line. -/
theorem IsPayload.endsLast {es : List Expr} (h : IsPayload false ks es) :
    EndsLast (separated .comma (Expr.kindsOfEach es)) := by
  cases h with
  | exprs h | comma h => exact h.canonical.1.endsLast
  | exprsPairs h h' =>
    rw [Expr.kindsOfEach_append, Expr.kindsOfEach, Expr.kindsOfEach,
      separated_concat h.kindsOfEach_ne_nil]
    exact (h'.canonical.1.endsLast.cons _).append_left _
  | pairs h => exact h.canonical.1.endsLast

theorem IsDeclaration.endsLast {d : Declaration} (h : IsDeclaration false ks d) :
    EndsLast d.kinds := by
  cases h with
  | bare => exact ⟨_, rfl, rfl⟩
  | payload h => exact h.endsLast.cons _

end

/-! ## Brackets -/

/-- As many brackets are open behind the kinds as in front of them. -/
def Balanced (ks : List Kind) : Prop := ∀ depth, ks.foldl Kind.depthAfter depth = depth

theorem balanced_nil : Balanced [] := fun _ => rfl

theorem Balanced.append {ks ls : List Kind} (h : Balanced ks) (h' : Balanced ls) :
    Balanced (ks ++ ls) := by
  intro depth
  rw [List.foldl_append, h, h']

theorem Balanced.cons {k : Kind} {ks : List Kind} (hk : ∀ depth, k.depthAfter depth = depth)
    (h : Balanced ks) : Balanced (k :: ks) := by
  intro depth
  rw [List.foldl_cons, hk, h]

theorem Balanced.bracket {first last : Kind} {ks : List Kind} (h : Balanced ks)
    (hfirst : first.opens) (hlast : last.closes) : Balanced (first :: (ks ++ [last])) := by
  have hopens : last.opens = false := by
    cases last with
    | lparen | lbracket | lbrace => cases hlast
    | _ => rfl
  intro depth
  rw [List.foldl_cons, List.foldl_append, h]
  simp [Kind.depthAfter, hfirst, hopens, hlast]

theorem Balanced.separated {sep : Kind} (hsep : ∀ depth, sep.depthAfter depth = depth)
    {kss : List (List Kind)} (h : ∀ ks ∈ kss, Balanced ks) : Balanced (separated sep kss) := by
  induction kss with
  | nil => exact balanced_nil
  | cons ks kss ih =>
    rw [List.forall_mem_cons] at h
    cases kss with
    | nil => exact h.1
    | cons => exact h.1.append (.cons hsep (ih h.2))

end Grammar

namespace Expr
open Grammar

theorem balanced_nameKinds (parts : List String) : Balanced (nameKinds parts) := by
  refine .separated (fun _ => rfl) fun ks hks => ?_
  obtain ⟨part, -, rfl⟩ := List.mem_map.mp hks
  exact fun _ => rfl

mutual

theorem balanced_kinds : (e : Expr) → Balanced e.kinds
  | ident _ _ | atom _ _ | int _ _ | str _ _ => fun _ => rfl
  | dotted parts _ => balanced_nameKinds parts
  | list items _ | tuple items _ =>
    (Balanced.separated (fun _ => rfl) (balanced_kindsOfEach items)).bracket rfl rfl
  | call _ args _ =>
    .cons (fun _ => rfl)
      ((Balanced.separated (fun _ => rfl) (balanced_kindsOfEach args)).bracket rfl rfl)
  | typed lhs rhs _ | alt lhs rhs _ =>
    (balanced_kinds lhs).append (.cons (fun _ => rfl) (balanced_kinds rhs))
  | map name entries _ =>
    .cons (fun _ => rfl) ((balanced_nameKinds name).append
      ((Balanced.separated (fun _ => rfl) (balanced_kindsOfPairs entries)).bracket rfl rfl))
  | keyword pairs _ => .separated (fun _ => rfl) (balanced_kindsOfPairs pairs)

theorem balanced_kindsOfEach : (es : List Expr) → ∀ ks ∈ kindsOfEach es, Balanced ks
  | [] => nofun
  | e :: es => List.forall_mem_cons.mpr ⟨balanced_kinds e, balanced_kindsOfEach es⟩

theorem balanced_kindsOfPairs :
    (pairs : List (Ident × Expr)) → ∀ ks ∈ kindsOfPairs pairs, Balanced ks
  | [] => nofun
  | (_, value) :: rest =>
    List.forall_mem_cons.mpr
      ⟨.cons (fun _ => rfl) (balanced_kinds value), balanced_kindsOfPairs rest⟩

end

end Expr

theorem Declaration.balanced_kinds (d : Declaration) : Grammar.Balanced d.kinds :=
  .cons (fun _ => rfl) (.separated (fun _ => rfl) (Expr.balanced_kindsOfEach d.payload))

end NativeInterface
