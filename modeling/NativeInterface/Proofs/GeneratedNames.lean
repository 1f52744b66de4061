import NativeInterface.Proofs.CodeWords
import Mathlib.Data.List.DropRight

/-!
# Names of values in generated code

The code that converts a value names the value, and its length if it is a list, by the names that
its declarations declare; under `value.` or `out->` when it is a field. `Handles` says so of a piece
of code.
-/

namespace NativeInterface.C

/-! ## Declared names -/

/-- What a C declaration declares: the identifier at its end. -/
def declaredName (decl : String) : String := String.ofList (decl.toList.rtakeWhile isIdentChar)

/-- All characters may stand in an identifier. -/
def IsIdent (text : String) : Prop := ∀ c ∈ text.toList, isIdentChar c

theorem isIdent_of_all {text : String} (h : text.toList.all isIdentChar) : IsIdent text :=
  List.all_eq_true.mp h

theorem IsIdent.append {a b : String} (ha : IsIdent a) (hb : IsIdent b) : IsIdent (a ++ b) := by
  intro c hc
  rw [String.toList_append, List.mem_append] at hc
  exact hc.elim (ha c) (hb c)

theorem isIdent_decimal (n : Nat) : IsIdent (Text.decimal n) := by
  intro c hc
  rw [Text.decimal, String.toList_ofList] at hc
  exact isIdentChar_toDigits hc

theorem declaredName_append {type name : String} {mark : Char}
    (hmark : type.toList.getLast? = some mark) (hsep : ¬isIdentChar mark) (hname : IsIdent name) :
    declaredName (type ++ name) = name := by
  obtain ⟨front, hfront⟩ := List.getLast?_eq_some_iff.mp hmark
  rw [declaredName, String.toList_append, hfront, List.rtakeWhile, List.reverse_append,
    List.reverse_concat, List.takeWhile_append_of_pos fun c hc => hname c (List.mem_reverse.mp hc),
    List.takeWhile_cons_of_neg hsep, List.append_nil, List.reverse_reverse, String.ofList_toList]

theorem declaredName_declare (type : String) {name : String} (hname : IsIdent name) :
    declaredName (declare type name) = name := by
  rw [declare]
  split
  · rename_i hstar
    exact declaredName_append (of_decide_eq_true hstar) (by decide) hname
  · have hblank : (type ++ " ").toList.getLast? = some ' ' := by simp
    exact declaredName_append hblank (by decide) hname

/-- An identifier is empty or starts with what is no digit. -/
theorem ident_cases (name : String) :
    (ident name).toList = [] ∨
      ∃ c cs, (ident name).toList = c :: cs ∧ (isIdentChar c && !c.isDigit) ∧
        ∀ d ∈ cs, isIdentChar d := by
  rw [toList_ident]
  have hmap (cs : List Char) : ∀ d ∈ cs.map identChar, isIdentChar d := by
    intro d hd
    obtain ⟨c, -, rfl⟩ := List.mem_map.mp hd
    exact isIdentChar_identChar c
  cases name.toList with
  | nil => exact .inl rfl
  | cons c cs =>
    right
    cases hdigit : (identChar c).isDigit with
    | true =>
      refine ⟨'_', (c :: cs).map identChar, ?_, by decide, hmap _⟩
      simp [identChars, hdigit]
    | false =>
      refine ⟨identChar c, cs.map identChar, ?_, ?_, hmap _⟩
      · simp [identChars, hdigit]
      · rw [isIdentChar_identChar, hdigit]
        rfl

theorem isIdent_ident (name : String) : IsIdent (ident name) := by
  intro c hc
  rcases ident_cases name with hnil | ⟨d, cs, hcons, hd, hcs⟩
  · rw [hnil] at hc
    exact (List.not_mem_nil hc).elim
  · rw [hcons, List.mem_cons] at hc
    rcases hc with rfl | hc
    · exact (Bool.and_eq_true_iff.mp hd).1
    · exact hcs c hc

theorem isName_ident {name : String} (h : ident name ≠ "") : isName (ident name).toList := by
  rcases ident_cases name with hnil | ⟨d, cs, hcons, hd, -⟩
  · exact absurd (String.toList_eq_nil_iff.mp hnil) h
  · rw [hcons, isName, List.any_cons, hd]
    rfl

theorem isIdent_lengthName (name : String) : IsIdent (lengthName (ident name)) := by
  have hmark : IsIdent "_length" := isIdent_of_all (by decide)
  exact (isIdent_ident name).append hmark

theorem isIdent_valueNames (name : String) (type : Ty) :
    ∀ word ∈ valueNames name type, IsIdent word := by
  rw [valueNames]
  split
  · exact List.forall_mem_cons.mpr
      ⟨isIdent_ident name, List.forall_mem_singleton.mpr (isIdent_lengthName name)⟩
  · exact List.forall_mem_singleton.mpr (isIdent_ident name)

theorem isIdent_implName (s : Surface) (f : NativeFunction) : IsIdent (implName s f) := by
  have hident : ident (implName s f) = implName s f :=
    String.toList_inj.mp (by rw [toList_ident, identChars_implName])
  exact hident ▸ isIdent_ident _

/-- A leaf that is no primitive stands for itself. -/
theorem classify_cases (s : Surface) (name : String) :
    (∃ p, classify s name = .primitive p) ∨ classify s name = .struct name ∨
      classify s name = .enum name ∨ classify s name = .unresolved name := by
  rw [classify]
  split
  · exact .inl ⟨_, rfl⟩
  · right
    split
    · exact .inl rfl
    · right
      split
      · exact .inl rfl
      · exact .inr rfl

/-- The direction of a helper is the front of its name, or stands behind the mark of the runtime. -/
theorem helper_cases (s : Surface) (op : String) (type : Ty) :
    ∃ back, IsIdent back ∧
      (helper s op type = "bridge_" ++ op ++ back ∨ helper s op type = op ++ back) := by
  have hmark : IsIdent "_" := isIdent_of_all (by decide)
  cases type with
  | named name =>
    rw [helper]
    rcases classify_cases s name with ⟨p, hclass⟩ | hclass | hclass | hclass
    · have hsuffix : IsIdent p.suffix := by
        apply isIdent_of_all
        cases p <;> decide
      rw [hclass]
      exact ⟨"_" ++ p.suffix, hmark.append hsuffix, .inl (String.append_assoc ..)⟩
    all_goals
      rw [hclass]
      exact ⟨"_" ++ ident name, hmark.append (isIdent_ident name), .inr (String.append_assoc ..)⟩
  | list element => exact ⟨"_list_value", isIdent_of_all (by decide), .inl rfl⟩
  | label => exact ⟨"_atom", isIdent_of_all (by decide), .inl rfl⟩

theorem isIdent_helper (s : Surface) {op : String} (hop : IsIdent op) (type : Ty) :
    IsIdent (helper s op type) := by
  have hbridge : IsIdent "bridge_" := isIdent_of_all (by decide)
  obtain ⟨back, hback, heq | heq⟩ := helper_cases s op type
  · rw [heq]
    exact (hbridge.append hop).append hback
  · rw [heq]
    exact hop.append hback

/-- The declarations of a value declare its name, and its length behind it. -/
theorem map_declaredName_valueDecls (s : Surface) (name : String) (type : Ty) :
    (valueDecls s name type).map declaredName = valueNames name type := by
  have hname (type : String) : declaredName (declare type (ident name)) = ident name :=
    declaredName_declare type (isIdent_ident name)
  cases type with
  | named leaf => exact congrArg (List.cons · []) (hname _)
  | list element =>
    have hlength : declaredName (declare "unsigned int" (lengthName (ident name))) =
        lengthName (ident name) :=
      declaredName_declare _ (isIdent_lengthName name)
    rw [valueDecls, List.map_cons, List.map_cons, hname, hlength]
    rfl
  | label => exact congrArg (List.cons · []) (hname _)

/-! ## Code for one value -/

/-- Code that converts one value, found under `path`: of values it names this one, by the names that
its declarations declare. -/
def Handles (s : Surface) (path name : String) (type : Ty) (steps : List Step) : Prop :=
  Uses ((valueDecls s name type).map fun decl => path ++ declaredName decl) steps

/-- Where values are found: a parameter or local, a field of a struct, a field of a result. -/
def valuePaths : List String := ["", "value.", "out->"]

theorem handles_iff {s : Surface} {path name : String} {type : Ty} {steps : List Step} :
    Handles s path name type steps ↔
      Uses ((valueNames name type).map (path ++ ·)) steps := by
  rw [← map_declaredName_valueDecls s, List.map_map]
  rfl

theorem IsIdent.isPath {text : String} (h : IsIdent text) : ∀ c ∈ text.toList, isPathChar c := by
  intro c hc
  rw [isPathChar, h c hc]
  rfl

/-- A value under a path fits where a value is expected. -/
theorem Filling.fits_value {e : Filling} {path name : String} (hpath : path ∈ valuePaths)
    (hvalue : e.value = path ++ ident name) (hhelper : IsIdent e.helper) : e.Fits := by
  have hfront : ∀ path ∈ valuePaths,
      path.toList.all isPathChar ∧ (path = "" ∨ isName path.toList) := by decide
  obtain ⟨hchars, hname⟩ := hfront path hpath
  refine ⟨?_, ?_, hhelper.isPath⟩
  · rw [hvalue, String.toList_append]
    exact List.forall_mem_append.mpr ⟨List.all_eq_true.mp hchars, (isIdent_ident name).isPath⟩
  · intro hne
    rw [hvalue, String.toList_append, isName, List.any_append, Bool.or_eq_true]
    rcases hname with rfl | hname
    · rw [hvalue, String.empty_append] at hne
      exact .inr (isName_ident hne)
    · exact .inl hname

/-- The type of which a helper converts one value. -/
def elementType : Ty → Ty
  | .list element => element
  | type => type

/-- Code for one item of a clause; a label is no value. -/
def HandlesItem (s : Surface) (item : ResultItem) (steps : List Step) : Prop :=
  if item.isLabel then Uses [] steps else Handles s "" item.name item.type steps

/-- Where no value is expected, any number and any literal may stand. -/
theorem Filling.fits_plain (index : Nat) (quoted : String) :
    Filling.Fits { index, quoted } where
  value _ h := (List.not_mem_nil h).elim
  named h := absurd rfl h
  helper _ h := (List.not_mem_nil h).elim

end NativeInterface.C
