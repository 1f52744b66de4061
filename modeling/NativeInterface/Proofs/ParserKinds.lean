import NativeInterface.Proofs.ParserLine

/-!
# Reading by kinds

Where a token stands has no part in how it is read. Two cursors with the same kinds ahead are read
alike: the same trees up to places with the same kinds left, or the same fault. This is
`View.agree_line` with no place told from another.
-/

namespace NativeInterface
open Token (Kind)

namespace Parser

/-! ## Cursors with the same kinds ahead -/

/-- The kinds of the tokens ahead are the same. -/
def Cursor.SameKinds (c c' : Cursor) : Prop := c.ahead.map (·.kind) = c'.ahead.map (·.kind)

/-- All places look the same, and kinds are as they are. -/
def View.kinds : View where
  place _ := {}
  kind := id
  merge _ _ := rfl

theorem sameLine_of_kinds {ts ts' : List Token} (h : ts.map (·.kind) = ts'.map (·.kind)) :
    View.kinds.SameLine ts ts' := by
  induction ts generalizing ts' with
  | nil =>
    cases List.map_eq_nil_iff.mp h.symm
    exact .stop rfl rfl rfl
  | cons t ts ih =>
    obtain ⟨t', ts', rfl, hkind, hts⟩ := List.map_eq_cons_iff.mp h.symm
    exact .cons hkind.symm rfl (ih hts.symm)

/-! ## Readings -/

/-- Both readings find the same, as far as `R` tells, or both fail for the same cause. -/
inductive Alike {α β : Type} (R : α → β → Prop) :
    Except (Located ParseFault) α → Except (Located ParseFault) β → Prop
  | ok : R a b → Alike R (.ok a) (.ok b)
  | error : Alike R (.error ⟨cause, span⟩) (.error ⟨cause, span'⟩)

/-- The same things, seen through `forget`, in front of the same kinds. -/
def Found {α β : Type} {Q Q' : Cursor → Prop} (forget : α → β) (x : α × { d : Cursor // Q d })
    (y : α × { d : Cursor // Q' d }) : Prop :=
  forget x.1 = forget y.1 ∧ x.2.val.SameKinds y.2.val

namespace Alike
variable {α β : Type} {R : α → β → Prop}

theorem exists_ok {a : α} {y : Except (Located ParseFault) β} (h : Alike R (.ok a) y) :
    ∃ b, y = .ok b ∧ R a b := by
  cases h with
  | ok hab => exact ⟨_, rfl, hab⟩

theorem exists_error {fault : Located ParseFault} {y : Except (Located ParseFault) β}
    (h : Alike R (.error fault) y) : ∃ span, y = .error ⟨fault.cause, span⟩ := by
  cases h with
  | error => exact ⟨_, rfl⟩

end Alike

/-! ## Lines -/

theorem map_lineEnd (ts : List Token) :
    (lineEnd ts).map (·.kind) = (ts.map (·.kind)).dropWhile fun k => !k.endsLine := by
  rw [List.dropWhile_map]
  rfl

theorem alike_line {c c' : Cursor} (h : c.SameKinds c') :
    Alike (Found Declaration.unplaced) (line c) (line c') := by
  have hsame : View.kinds.Same c c' := ⟨rfl, sameLine_of_kinds h⟩
  have hagree := View.agree_line hsame
  generalize hx : line c = x at hagree
  generalize hy : line c' = y at hagree
  cases hagree with
  | @ok x y hxy =>
    refine .ok ⟨?_, ?_⟩
    · rw [← Declaration.mapPlaces_const, ← Declaration.mapPlaces_const]
      exact hxy.1
    · unfold Cursor.SameKinds
      rw [ahead_of_line hx, ahead_of_line hy, map_lineEnd, map_lineEnd, h]
  | error hcause =>
    rw [View.kinds, ParseFault.mapFound_id, ParseFault.mapFound_id] at hcause
    cases hcause
    exact .error

theorem map_skipNewlines (ts : List Token) :
    (skipNewlines ts).map (·.kind) = (ts.map (·.kind)).dropWhile (· = .newline) := by
  rw [List.dropWhile_map]
  rfl

theorem map_nextLine {ts ts' : List Token} (h : ts.map (·.kind) = ts'.map (·.kind)) :
    (nextLine ts).map (·.kind) = (nextLine ts').map (·.kind) := by
  induction ts generalizing ts' with
  | nil =>
    cases List.map_eq_nil_iff.mp h.symm
    rfl
  | cons t ts ih =>
    obtain ⟨t', ts', rfl, hkind, hts⟩ := List.map_eq_cons_iff.mp h.symm
    rw [nextLine, nextLine, hkind]
    split
    · exact h
    · split
      · rw [map_skipNewlines, map_skipNewlines, hts]
      · exact ih hts.symm

end Parser

namespace Parsed
open NativeInterface.Parser

/-- The same declarations up to places, and faults for the same causes. -/
structure SameMeaning (r r' : Parsed) : Prop where
  declarations : r.declarations.map Declaration.unplaced = r'.declarations.map Declaration.unplaced
  faults : r.faults.map (·.cause) = r'.faults.map (·.cause)

theorem sameMeaning_lines {budget : Nat} {ts : List Token} :
    ∀ ts', ts.map (·.kind) = ts'.map (·.kind) →
      (lines budget ts).SameMeaning (lines budget ts') := by
  fun_induction lines budget ts with
  | case1 budget =>
    intro ts' h
    cases List.map_eq_nil_iff.mp h.symm
    rw [lines]
    exact ⟨rfl, rfl⟩
  | case2 budget t rest hstop =>
    intro ts' h
    obtain ⟨t', rest', rfl, hkind, -⟩ := List.map_eq_cons_iff.mp h.symm
    rw [lines, dif_pos (hstop.imp_left hkind.trans)]
    exact ⟨rfl, rfl⟩
  | case3 budget t rest hgoes d e hread tail ih =>
    intro ts' h
    obtain ⟨t', rest', rfl, hkind, -⟩ := List.map_eq_cons_iff.mp h.symm
    have heof : nextKind (t' :: rest') ≠ .eof := fun hk => hgoes (.inl (hkind.symm.trans hk))
    have hline : Alike _ (line ⟨.point 1 1, t :: rest⟩) (line ⟨.point 1 1, t' :: rest'⟩) :=
      alike_line h
    rw [hread] at hline
    obtain ⟨⟨d', e'⟩, hread', hd, he⟩ := hline.exists_ok
    have htail := ih (skipNewlines e'.val.ahead) (by rw [map_skipNewlines, map_skipNewlines, he])
    rw [lines_of_ok (fun hb => hgoes (.inr hb)) heof hread']
    exact ⟨congrArg₂ List.cons hd htail.declarations, htail.faults⟩
  | case4 budget t rest hgoes fault hread tail ih =>
    intro ts' h
    obtain ⟨t', rest', rfl, hkind, -⟩ := List.map_eq_cons_iff.mp h.symm
    have heof : nextKind (t' :: rest') ≠ .eof := fun hk => hgoes (.inl (hkind.symm.trans hk))
    have hline : Alike _ (line ⟨.point 1 1, t :: rest⟩) (line ⟨.point 1 1, t' :: rest'⟩) :=
      alike_line h
    rw [hread] at hline
    obtain ⟨span, hread'⟩ := hline.exists_error
    have htail := ih _ (map_nextLine h)
    rw [lines_of_error (fun hb => hgoes (.inr hb)) heof hread']
    exact ⟨htail.declarations, congrArg (fault.cause :: ·) htail.faults⟩

/-- The meaning of tokens is a matter of their kinds. -/
theorem sameMeaning_ofTokens {ts ts' : List Token} (h : ts.map (·.kind) = ts'.map (·.kind)) :
    (ofTokens ts).SameMeaning (ofTokens ts') := by
  refine sameMeaning_lines _ ?_
  rw [map_skipNewlines, map_skipNewlines, h]

end Parsed

end NativeInterface
