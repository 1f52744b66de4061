import NativeInterface.Declaration.Parser

/-!
# The grammar of declarations

The rules by which a line of token kinds is the declaration `d`, as relations between kinds and
trees. Places play no part: a rule derives a tree with any spans. How deep a tree nests is a
property of the tree alone (`Expr.levels`).

A payload and a list of items may end in one more comma behind an expression; keyword lists and the
entries of a map may not. The rule for items
`[ Expr { "," Expr } ] [ "," Keywords ] | Keywords` leaves out its two optional parts one by one, so
that it also derives a keyword list behind a lone comma. The relations have this reading as the
parameter `loose`.
-/

namespace NativeInterface

namespace Expr

mutual

/-- The expression with no places in it. -/
def unplaced : Expr → Expr
  | ident name _ => ident name {}
  | dotted parts _ => dotted parts {}
  | atom name _ => atom name {}
  | int value _ => int value {}
  | str value _ => str value {}
  | list items _ => list (unplacedAll items) {}
  | tuple items _ => tuple (unplacedAll items) {}
  | call name args _ => call ⟨name.name, {}⟩ (unplacedAll args) {}
  | typed lhs rhs _ => typed lhs.unplaced rhs.unplaced {}
  | alt lhs rhs _ => alt lhs.unplaced rhs.unplaced {}
  | map name entries _ => map name (unplacedPairs entries) {}
  | keyword pairs _ => keyword (unplacedPairs pairs) {}

def unplacedAll : List Expr → List Expr
  | [] => []
  | e :: es => e.unplaced :: unplacedAll es

def unplacedPairs : List (Ident × Expr) → List (Ident × Expr)
  | [] => []
  | (key, value) :: rest => (⟨key.name, {}⟩, value.unplaced) :: unplacedPairs rest

end

mutual

/-- How many levels an expression takes. What stands in brackets and what stands behind `::` is one
level deeper; both sides of `|` and the values of a keyword list stay on the level. -/
def levels : Expr → Nat
  | ident _ _ | dotted _ _ | atom _ _ | int _ _ | str _ _ => 1
  | list items _ | tuple items _ | call _ items _ => levelsOfAll items + 1
  | typed lhs rhs _ => max lhs.levels (rhs.levels + 1)
  | alt lhs rhs _ => max lhs.levels rhs.levels
  | map _ entries _ => levelsOfPairs entries + 1
  | keyword pairs _ => levelsOfPairs pairs

/-- The levels of the deepest of several expressions. -/
def levelsOfAll : List Expr → Nat
  | [] => 0
  | e :: es => max e.levels (levelsOfAll es)

/-- The levels of the deepest of several values. -/
def levelsOfPairs : List (Ident × Expr) → Nat
  | [] => 0
  | (_, value) :: rest => max value.levels (levelsOfPairs rest)

end

end Expr

namespace Declaration

/-- The declaration with no places in it. -/
def unplaced (d : Declaration) : Declaration :=
  ⟨⟨d.kind.name, {}⟩, Expr.unplacedAll d.payload, {}⟩

def levels (d : Declaration) : Nat := Expr.levelsOfAll d.payload

end Declaration

namespace Grammar
open Token (Kind)

/-! ## Rules -/

/-- `segment { "." segment }` -/
inductive IsName : List Kind → List String → Prop
  | one : IsName [.segment part] [part]
  | cons : IsName ks parts → IsName (.segment part :: .dot :: ks) (part :: parts)

section
variable (loose : Bool)

mutual

/-- `Alt [ "::" Expr ]` -/
inductive IsExpr : List Kind → Expr → Prop
  | plain : IsAlt ks e → IsExpr ks e
  | typed : IsAlt ks lhs → IsExpr ls rhs → IsExpr (ks ++ .colonColon :: ls) (.typed lhs rhs span)

/-- `Primary [ "|" Alt ]` -/
inductive IsAlt : List Kind → Expr → Prop
  | plain : IsPrimary ks e → IsAlt ks e
  | alt : IsPrimary ks lhs → IsAlt ls rhs → IsAlt (ks ++ .pipe :: ls) (.alt lhs rhs span)

/-- A name, a call, a literal, or something in brackets. -/
inductive IsPrimary : List Kind → Expr → Prop
  | ident : IsPrimary [.identifier name] (.ident name span)
  | call : IsItems ks args →
    IsPrimary (.identifier name :: .lparen :: (ks ++ [.rparen])) (.call ⟨name, place⟩ args span)
  | dotted : IsName ks parts → IsPrimary ks (.dotted parts span)
  | atom : IsPrimary [.atom name] (.atom name span)
  | int : IsPrimary [.integer value] (.int value span)
  | str : IsPrimary [.string value] (.str value span)
  | list : IsItems ks items → IsPrimary (.lbracket :: (ks ++ [.rbracket])) (.list items span)
  | tuple : IsItems ks items → IsPrimary (.lbrace :: (ks ++ [.rbrace])) (.tuple items span)
  | map : IsName ks name → IsEntries ls entries →
    IsPrimary (.percent :: (ks ++ .lbrace :: (ls ++ [.rbrace]))) (.map name entries span)

/-- `[ Keywords ]` -/
inductive IsEntries : List Kind → List (Ident × Expr) → Prop
  | none : IsEntries [] []
  | some : IsPairs ks pairs → IsEntries ks pairs

/-- `Expr { "," Expr }` -/
inductive IsExprs : List Kind → List Expr → Prop
  | one : IsExpr ks e → IsExprs ks [e]
  | cons : IsExpr ks e → IsExprs ls es → IsExprs (ks ++ .comma :: ls) (e :: es)

/-- `key Expr { "," key Expr }` -/
inductive IsPairs : List Kind → List (Ident × Expr) → Prop
  | one : IsExpr ks e → IsPairs (.key name :: ks) [(⟨name, place⟩, e)]
  | cons : IsExpr ks e → IsPairs ls pairs →
    IsPairs (.key name :: (ks ++ .comma :: ls)) ((⟨name, place⟩, e) :: pairs)

/-- `Expr { "," Expr } [ "," Keywords ] | Keywords`, or expressions with a comma behind them -/
inductive IsPayload : List Kind → List Expr → Prop
  | exprs : IsExprs ks es → IsPayload ks es
  | comma : IsExprs ks es → IsPayload (ks ++ [.comma]) es
  | exprsPairs : IsExprs ks es → IsPairs ls pairs →
    IsPayload (ks ++ .comma :: ls) (es ++ [.keyword pairs span])
  | pairs : IsPairs ks pairs → IsPayload ks [.keyword pairs span]

/-- `[ Expr { "," Expr } ] [ "," Keywords ] | Keywords`, or expressions with a comma behind them -/
inductive IsItems : List Kind → List Expr → Prop
  | none : IsItems [] []
  | some : IsPayload ks es → IsItems ks es
  | leading : loose = true → IsPairs ks pairs → IsItems (.comma :: ks) [.keyword pairs span]

end

/-- `identifier [ Payload ]` -/
inductive IsDeclaration : List Kind → Declaration → Prop
  | bare : IsDeclaration [.identifier name] ⟨⟨name, place⟩, [], span⟩
  | payload : IsPayload loose ks es →
    IsDeclaration (.identifier name :: ks) ⟨⟨name, place⟩, es, span⟩

end

/-! ## Items one by one -/

/-- What stands behind an expression among items: nothing, or a comma and further items. -/
inductive IsRest : List Kind → List Expr → Prop
  | none : IsRest [] []
  | comma : IsItems false ks es → IsRest (.comma :: ks) es

section
variable {ks ls : List Kind} {e : Expr} {es : List Expr}

/-- One more expression in front. -/
theorem IsPayload.cons (h : IsExpr false ks e) (hes : IsPayload false ls es) :
    IsPayload false (ks ++ .comma :: ls) (e :: es) := by
  cases hes with
  | exprs hes => exact .exprs (.cons h hes)
  | comma hes =>
    rw [← List.cons_append, ← List.append_assoc]
    exact .comma (.cons h hes)
  | exprsPairs hes hpairs =>
    rw [← List.cons_append, ← List.append_assoc]
    exact .exprsPairs (.cons h hes) hpairs
  | pairs hpairs => exact .exprsPairs (.one h) hpairs

theorem IsItems.cons (h : IsExpr false ks e) (hes : IsItems false ls es) :
    IsItems false (ks ++ .comma :: ls) (e :: es) := by
  cases hes with
  | none => exact .some (.comma (.one h))
  | some hes => exact .some (hes.cons h)
  | leading hloose => cases hloose

/-- A payload is a keyword list, or starts with an expression. -/
theorem IsPayload.uncons (h : IsPayload false ks es) :
    (∃ pairs span, IsPairs false ks pairs ∧ es = [.keyword pairs span]) ∨
      ∃ ks' ls e es', IsExpr false ks' e ∧ IsRest ls es' ∧ ks = ks' ++ ls ∧ es = e :: es' := by
  cases h with
  | exprs h =>
    cases h with
    | one h => exact .inr ⟨_, _, _, _, h, .none, (List.append_nil _).symm, rfl⟩
    | cons h hes => exact .inr ⟨_, _, _, _, h, .comma (.some (.exprs hes)), rfl, rfl⟩
  | comma h =>
    cases h with
    | one h => exact .inr ⟨_, _, _, _, h, .comma .none, rfl, rfl⟩
    | cons h hes =>
      refine .inr ⟨_, _, _, _, h, .comma (.some (.comma hes)), ?_, rfl⟩
      rw [List.append_assoc, List.cons_append]
  | exprsPairs h hpairs =>
    cases h with
    | one h => exact .inr ⟨_, _, _, _, h, .comma (.some (.pairs hpairs)), rfl, rfl⟩
    | cons h hes =>
      refine .inr ⟨_, _, _, _, h, .comma (.some (.exprsPairs hes hpairs)), ?_, rfl⟩
      rw [List.append_assoc, List.cons_append]
  | pairs h => exact .inl ⟨_, _, h, rfl⟩

/-- A declaration is its kind word with as many expressions as there are. -/
theorem IsDeclaration.items {d : Declaration} (h : IsDeclaration false ks d) :
    ∃ name place es span ls, ks = .identifier name :: ls ∧ d = ⟨⟨name, place⟩, es, span⟩ ∧
      IsItems false ls es := by
  cases h with
  | bare => exact ⟨_, _, _, _, _, rfl, rfl, .none⟩
  | payload h => exact ⟨_, _, _, _, _, rfl, rfl, .some h⟩

end

/-! ## First tokens -/

/-- The kinds with which an expression starts. -/
def startsExpr : Kind → Bool
  | .identifier _ | .segment _ | .atom _ | .integer _ | .string _ | .lbracket | .lbrace
  | .percent => true
  | _ => false

theorem closes_of_startsExpr {k : Kind} (h : startsExpr k) : k.closes = false := by
  cases k with
  | rparen | rbracket | rbrace => cases h
  | _ => rfl

theorem endsLine_of_startsExpr {k : Kind} (h : startsExpr k) : k.endsLine = false := by
  cases k with
  | newline | eof => cases h
  | _ => rfl

section
variable {loose : Bool} {ks : List Kind} {e : Expr}

theorem IsPrimary.starts (h : IsPrimary loose ks e) : ∃ k ls, ks = k :: ls ∧ startsExpr k := by
  cases h with
  | dotted h => cases h <;> exact ⟨_, _, rfl, rfl⟩
  | _ => exact ⟨_, _, rfl, rfl⟩

theorem IsAlt.starts (h : IsAlt loose ks e) : ∃ k ls, ks = k :: ls ∧ startsExpr k := by
  cases h with
  | plain h => exact h.starts
  | alt h _ =>
    obtain ⟨k, ls, rfl, hk⟩ := h.starts
    exact ⟨k, _, List.cons_append .., hk⟩

theorem IsExpr.starts (h : IsExpr loose ks e) : ∃ k ls, ks = k :: ls ∧ startsExpr k := by
  cases h with
  | plain h => exact h.starts
  | typed h _ =>
    obtain ⟨k, ls, rfl, hk⟩ := h.starts
    exact ⟨k, _, List.cons_append .., hk⟩

/-- An expression takes a level. -/
theorem IsPrimary.levels_pos (h : IsPrimary loose ks e) : 0 < e.levels := by
  cases h <;> exact Nat.succ_pos _

theorem IsAlt.levels_pos (h : IsAlt loose ks e) : 0 < e.levels := by
  cases h with
  | plain h => exact h.levels_pos
  | alt h _ => exact Nat.lt_of_lt_of_le h.levels_pos (Nat.le_max_left ..)

theorem IsExpr.levels_pos (h : IsExpr loose ks e) : 0 < e.levels := by
  cases h with
  | plain h => exact h.levels_pos
  | typed h _ => exact Nat.lt_of_lt_of_le h.levels_pos (Nat.le_max_left ..)

theorem IsPairs.starts {pairs : List (Ident × Expr)} (h : IsPairs loose ks pairs) :
    ∃ name ls, ks = .key name :: ls := by
  cases h <;> exact ⟨_, _, rfl⟩

end

/-! ## Lines -/

/-- None of the kinds ends a line. -/
def InLine (ks : List Kind) : Prop := ∀ k ∈ ks, k.endsLine = false

section
variable {loose : Bool} {ks ls : List Kind}

@[simp] theorem inLine_nil : InLine [] := fun _ h => nomatch h

@[simp] theorem inLine_cons {k : Kind} : InLine (k :: ks) ↔ k.endsLine = false ∧ InLine ks :=
  List.forall_mem_cons

@[simp] theorem inLine_append : InLine (ks ++ ls) ↔ InLine ks ∧ InLine ls :=
  List.forall_mem_append

theorem IsName.inLine {parts : List String} (h : IsName ks parts) : InLine ks := by
  induction h with
  | one => simp [Kind.endsLine]
  | cons _ ih => simp [Kind.endsLine, ih]

mutual

theorem IsExpr.inLine {ks : List Kind} {e : Expr} : IsExpr loose ks e → InLine ks
  | .plain h => h.inLine
  | .typed h h' => by simp [h.inLine, h'.inLine, Kind.endsLine]

theorem IsAlt.inLine {ks : List Kind} {e : Expr} : IsAlt loose ks e → InLine ks
  | .plain h => h.inLine
  | .alt h h' => by simp [h.inLine, h'.inLine, Kind.endsLine]

theorem IsPrimary.inLine {ks : List Kind} {e : Expr} : IsPrimary loose ks e → InLine ks
  | .ident | .atom | .int | .str => by simp [Kind.endsLine]
  | .call h | .list h | .tuple h => by simp [h.inLine, Kind.endsLine]
  | .dotted h => h.inLine
  | .map h h' => by simp [h.inLine, h'.inLine, Kind.endsLine]

theorem IsEntries.inLine {ks : List Kind} {pairs : List (Ident × Expr)} :
    IsEntries loose ks pairs → InLine ks
  | .none => inLine_nil
  | .some h => h.inLine

theorem IsExprs.inLine {ks : List Kind} {es : List Expr} : IsExprs loose ks es → InLine ks
  | .one h => h.inLine
  | .cons h h' => by simp [h.inLine, h'.inLine, Kind.endsLine]

theorem IsPairs.inLine {ks : List Kind} {pairs : List (Ident × Expr)} :
    IsPairs loose ks pairs → InLine ks
  | .one h => by simp [h.inLine, Kind.endsLine]
  | .cons h h' => by simp [h.inLine, h'.inLine, Kind.endsLine]

theorem IsPayload.inLine {ks : List Kind} {es : List Expr} : IsPayload loose ks es → InLine ks
  | .exprs h => h.inLine
  | .comma h => by simp [h.inLine, Kind.endsLine]
  | .exprsPairs h h' => by simp [h.inLine, h'.inLine, Kind.endsLine]
  | .pairs h => h.inLine

theorem IsItems.inLine {ks : List Kind} {es : List Expr} : IsItems loose ks es → InLine ks
  | .none => inLine_nil
  | .some h => h.inLine
  | .leading _ h => by simp [h.inLine, Kind.endsLine]

end

theorem IsDeclaration.inLine {d : Declaration} (h : IsDeclaration loose ks d) : InLine ks := by
  cases h with
  | bare => simp [Kind.endsLine]
  | payload h => simp [h.inLine, Kind.endsLine]

end

end Grammar
end NativeInterface
