import NativeInterface.Proofs.GeneratedNames

/-!
# Declarations in generated code

A reader of C text that finds the variable which a line declares, if it declares one (`declaredIn`).
Like the reader of words it knows nothing of how the line was made. In a line with holes it finds
the same declaration whatever the holes are filled with, so what generated steps declare is computed
once for every way of filling them (`declared_of_check`).
-/

namespace NativeInterface.C

/-! ## Reading -/

/-- A character of types and names, or of the marks between them. -/
def isDeclChar (c : Char) : Bool := isIdentChar c || c = ' ' || c = '*'

/-- The variable at the end of a declaration, which has at least two words. -/
def declarator? (front : List Char) : Option (List Char) :=
  if ' ' ∈ front then some (front.rtakeWhile isIdentChar) else none

/-- The variable that a declaration declares, by its words and what stands behind them: nothing, the
bounds of an array, a value, or the end of a statement. A value has a blank in front of it, and what
is returned is not declared. -/
def declaresBefore (front : List Char) (stop : Option Char) : Option (List Char) :=
  if stop = none ∨ stop = some '[' then declarator? front
  else if stop = some '=' then declarator? front.dropLast
  else if stop = some ';' ∧ front.takeWhile isIdentChar ≠ ['r', 'e', 't', 'u', 'r', 'n'] then
    declarator? front
  else none

def declarationIn (code : List Char) : Option (List Char) :=
  declaresBefore (code.takeWhile isDeclChar) (code.dropWhile isDeclChar).head?

/-- The variable that a line of C declares; a loop declares one in its head. -/
def declaredIn (code : List Char) : Option (List Char) :=
  if code.takeWhile isDeclChar = ['f', 'o', 'r', ' '] ∧
      (code.dropWhile isDeclChar).head? = some '(' then
    declarationIn (code.dropWhile isDeclChar).tail
  else declarationIn code

/-- What a piece of code declares, in order and in all of its blocks. -/
def Step.declared (steps : List Step) : List String :=
  steps.filterMap fun step => (declaredIn step.code.toList).map String.ofList

/-- The names of the parameters. -/
def Signature.declared (signature : Signature) : List String :=
  signature.params.filterMap fun param => (declaredIn param.toList).map String.ofList

/-- The names of the fields in the body of a struct, each in front of a semicolon. -/
def Step.fields (steps : List Step) : List String :=
  steps.filterMap fun step => (declaredIn step.code.toList.dropLast).map String.ofList

@[simp] theorem Step.declared_nil : Step.declared [] = [] := rfl

@[simp] theorem Step.declared_append (steps steps' : List Step) :
    Step.declared (steps ++ steps') = Step.declared steps ++ Step.declared steps' :=
  List.filterMap_append

/-! ## Declarations of values -/

/-- The text of a type: words, with stars behind a blank. -/
structure IsType (text : String) : Prop where
  chars : ∀ c ∈ text.toList, isDeclChar c
  blank : endsInStar text → ' ' ∈ text.toList

theorem IsIdent.isDecl {text : String} (h : IsIdent text) : ∀ c ∈ text.toList, isDeclChar c := by
  intro c hc
  rw [isDeclChar, h c hc]
  rfl

theorem isType_of_check {text : String}
    (h : (text.toList.all isDeclChar && (!endsInStar text || text.toList.contains ' ')) = true) :
    IsType text := by
  simp only [Bool.and_eq_true, List.all_eq_true, Bool.or_eq_true, Bool.not_eq_true',
    List.contains_iff_mem] at h
  refine ⟨h.1, fun hstar => ?_⟩
  rcases h.2 with hnot | hblank
  · rw [hnot] at hstar
    cases hstar
  · exact hblank

theorem IsIdent.isType {text : String} (h : IsIdent text) : IsType text where
  chars := h.isDecl
  blank hstar := by
    have hlast : text.toList.getLast? = some '*' := of_decide_eq_true hstar
    have hident : isIdentChar '*' := h _ (List.mem_of_getLast? hlast)
    cases hident

/-- A blank and stars behind a type. -/
theorem IsType.append {text stars : String} (h : IsType text)
    (hchars : ∀ c ∈ stars.toList, isDeclChar c) (hblank : ' ' ∈ text.toList ++ stars.toList) :
    IsType (text ++ stars) where
  chars := by
    rw [String.toList_append]
    exact List.forall_mem_append.mpr ⟨h.chars, hchars⟩
  blank _ := by rwa [String.toList_append]

theorem isType_pointerTo {type : String} (h : IsType type) : IsType (pointerTo type) := by
  rw [pointerTo]
  split
  · rename_i hstar
    exact h.append (List.all_eq_true.mp (by decide)) (List.mem_append_left _ (h.blank hstar))
  · exact h.append (List.all_eq_true.mp (by decide)) (List.mem_append_right _ (by decide))

/-- The types that need no declaration. -/
theorem isType_builtin : ∀ type ∈ ["void *", "char *", "int", "unsigned int", "int64_t", "uint64_t",
    "double", "BridgePid", "BridgePayload", "BridgeList"], IsType type := by
  have hcheck : ∀ type ∈ ["void *", "char *", "int", "unsigned int", "int64_t", "uint64_t",
      "double", "BridgePid", "BridgePayload", "BridgeList"],
      (type.toList.all isDeclChar && (!endsInStar type || type.toList.contains ' ')) = true := by
    decide
  exact fun type htype => isType_of_check (hcheck type htype)

theorem isType_typeText (s : Surface) (type : Ty) : IsType (typeText s type) := by
  have hstate : IsType (stateType s) := by
    rw [stateType]
    split
    · exact (isIdent_ident _).isType.append (List.all_eq_true.mp (by decide))
        (List.mem_append_right _ (by decide))
    · exact isType_builtin _ (by decide)
  have hprimitive (p : Primitive) : IsType (primitiveType s p) := by
    cases p with
    | state => exact hstate
    | _ => exact isType_builtin _ (by simp [primitiveType])
  cases type with
  | named name =>
    rw [typeText]
    split
    · exact hprimitive _
    all_goals exact (isIdent_ident _).isType
  | list element => exact isType_builtin _ (by simp [typeText])
  | label => exact isType_builtin _ (by simp [typeText])

section declare
variable {type name : String} (htype : IsType type) (hname : IsIdent name)
include htype hname

theorem isDeclChar_declare : ∀ c ∈ (declare type name).toList, isDeclChar c := by
  rw [declare]
  split
  · rw [String.toList_append]
    exact List.forall_mem_append.mpr ⟨htype.chars, hname.isDecl⟩
  · rw [String.toList_append, String.toList_append]
    exact List.forall_mem_append.mpr
      ⟨List.forall_mem_append.mpr ⟨htype.chars, List.all_eq_true.mp (by decide)⟩, hname.isDecl⟩

theorem declarator?_declare : declarator? (declare type name).toList = some name.toList := by
  have hblank : ' ' ∈ (declare type name).toList := by
    rw [declare]
    split
    · rename_i hstar
      rw [String.toList_append]
      exact List.mem_append_left _ (htype.blank hstar)
    · simp
  have hread := congrArg String.toList (declaredName_declare type hname)
  rw [declaredName, String.toList_ofList] at hread
  rw [declarator?, if_pos hblank, hread]

/-- A parameter declares its name. -/
theorem declaredIn_declare : declaredIn (declare type name).toList = some name.toList := by
  have hchars := isDeclChar_declare htype hname
  have hrest : (declare type name).toList.dropWhile isDeclChar = [] :=
    List.dropWhile_eq_nil_iff.mpr hchars
  have hfront : (declare type name).toList.takeWhile isDeclChar = (declare type name).toList :=
    List.takeWhile_eq_self_iff.mpr hchars
  rw [declaredIn, hrest, if_neg (by simp), declarationIn, hrest, hfront, declaresBefore,
    if_pos (.inl rfl), declarator?_declare htype hname]

/-- A local declares its name. -/
theorem declaredIn_localText :
    declaredIn (localText (declare type name)).toList = some name.toList := by
  have hchars := isDeclChar_declare htype hname
  obtain ⟨value, hvalue⟩ : ∃ value, (localText (declare type name)).toList =
      ((declare type name).toList ++ [' ']) ++ '=' :: value := by
    refine ⟨' ' :: ((if (declare type name).toList.contains '*' then "NULL" else "\x7b0\x7d").toList
      ++ ";".toList), ?_⟩
    simp [localText]
  have hwords : ∀ c ∈ (declare type name).toList ++ [' '], isDeclChar c :=
    List.forall_mem_append.mpr ⟨hchars, List.forall_mem_singleton.mpr (by decide)⟩
  have hstop : ¬isDeclChar '=' := by decide
  have hfront : (localText (declare type name)).toList.takeWhile isDeclChar =
      (declare type name).toList ++ [' '] := by
    rw [hvalue, List.takeWhile_append_of_pos hwords, List.takeWhile_cons_of_neg hstop,
      List.append_nil]
  have hrest : (localText (declare type name)).toList.dropWhile isDeclChar = '=' :: value := by
    rw [hvalue, List.dropWhile_append_of_pos hwords, List.dropWhile_cons_of_neg hstop]
  rw [declaredIn, hrest, if_neg (by simp), declarationIn, hfront, hrest, List.head?_cons,
    declaresBefore, if_neg (by simp), if_pos rfl, List.dropLast_concat,
    declarator?_declare htype hname]

end declare

theorem isDeclChar_valueDecls (s : Surface) (name : String) (type : Ty) :
    ∀ decl ∈ valueDecls s name type, ∀ c ∈ decl.toList, isDeclChar c := by
  have hname := isIdent_ident name
  have htype (type : Ty) := isType_typeText s type
  cases type with
  | list element =>
    have hcount := isType_builtin "unsigned int" (by decide)
    exact List.forall_mem_cons.mpr ⟨isDeclChar_declare (isType_pointerTo (htype element)) hname,
      List.forall_mem_singleton.mpr (isDeclChar_declare hcount (isIdent_lengthName name))⟩
  | named | label => exact List.forall_mem_singleton.mpr (isDeclChar_declare (htype _) hname)

/-- A call declares nothing. -/
theorem declaredIn_call {front : List Char} (hfront : ∀ c ∈ front, isDeclChar c)
    (hloop : front ≠ ['f', 'o', 'r', ' ']) (rest : List Char) :
    declaredIn (front ++ '(' :: rest) = none := by
  have hstop : ¬isDeclChar '(' := by decide
  rw [declaredIn, List.takeWhile_append_of_pos hfront, List.takeWhile_cons_of_neg hstop,
    List.append_nil, if_neg fun h => hloop h.1, declarationIn,
    List.dropWhile_append_of_pos hfront, List.dropWhile_cons_of_neg hstop, List.head?_cons]
  rfl

/-- The declarations of values declare their names: as parameters, as locals and as fields. -/
theorem declared_valueDecls (s : Surface) (name : String) (type : Ty) :
    (valueDecls s name type).filterMap (fun decl => (declaredIn decl.toList).map String.ofList) =
        valueNames name type ∧
      Step.declared ((valueLocals s name type).map Step.line) = valueNames name type ∧
      Step.fields ((valueDecls s name type).map fun decl => .line (decl ++ ";")) =
        valueNames name type := by
  have hname := isIdent_ident name
  have hlength := isIdent_lengthName name
  have hsize : IsType "unsigned int" := isType_builtin _ (by decide)
  have hsemicolon : ";".toList = [';'] := rfl
  cases type with
  | list element =>
    have htype := isType_pointerTo (isType_typeText s element)
    simp [valueDecls, valueLocals, valueNames, Step.declared, Step.fields, hsemicolon,
      declaredIn_declare htype hname, declaredIn_declare hsize hlength,
      declaredIn_localText htype hname, declaredIn_localText hsize hlength, Ty.isList]
  | named leaf =>
    have htype := isType_typeText s (.named leaf)
    simp [valueDecls, valueLocals, valueNames, Step.declared, Step.fields, hsemicolon,
      declaredIn_declare htype hname, declaredIn_localText htype hname, Ty.isList]
  | label =>
    have htype := isType_typeText s .label
    simp [valueDecls, valueLocals, valueNames, Step.declared, Step.fields, hsemicolon,
      declaredIn_declare htype hname, declaredIn_localText htype hname, Ty.isList]

section values
variable {α : Type} (s : Surface) (name : α → String) (type : α → Ty) (xs : List α)

theorem declared_decls :
    (xs.flatMap fun x => valueDecls s (name x) (type x)).filterMap
        (fun decl => (declaredIn decl.toList).map String.ofList) =
      xs.flatMap fun x => valueNames (name x) (type x) := by
  simp only [List.filterMap_flatMap, (declared_valueDecls s _ _).1]

theorem declared_locals :
    Step.declared ((xs.flatMap fun x => valueLocals s (name x) (type x)).map Step.line) =
      xs.flatMap fun x => valueNames (name x) (type x) := by
  have h := fun x => (declared_valueDecls s (name x) (type x)).2.1
  simp only [Step.declared] at h ⊢
  simp only [List.map_flatMap, List.filterMap_flatMap, h]

theorem fields_decls :
    Step.fields ((xs.flatMap fun x => valueDecls s (name x) (type x)).map
        fun decl => .line (decl ++ ";")) =
      xs.flatMap fun x => valueNames (name x) (type x) := by
  have h := fun x => (declared_valueDecls s (name x) (type x)).2.2
  simp only [Step.fields] at h ⊢
  simp only [List.map_flatMap, List.filterMap_flatMap, h]

end values

/-! ## Lines with holes -/

/-- Names without a path are filled in. -/
structure Filling.Plain (e : Filling) : Prop where
  value : IsIdent e.value
  helper : IsIdent e.helper

theorem Filling.plain_empty (index : Nat) (quoted : String) :
    Filling.Plain { index, quoted } where
  value _ h := (List.not_mem_nil h).elim
  helper _ h := (List.not_mem_nil h).elim

namespace Cell

/-- Cells of which all characters have a property of identifiers. -/
def lift (p : Char → Bool) : Cell → Bool
  | char c => p c
  | quoted => false
  | _ => true

/-- The first character of cells that start with fixed text. -/
def stop? : List Cell → Option Char
  | [] => none
  | char c :: _ => some c
  | _ => some '"'

def declarator? (front : List Cell) : Option (List Cell) :=
  if .char ' ' ∈ front then some (front.rtakeWhile (lift isIdentChar)) else none

def declaresBefore (front : List Cell) (stop : Option Char) : Option (List Cell) :=
  if stop = none ∨ stop = some '[' then declarator? front
  else if stop = some '=' then declarator? front.dropLast
  else if stop = some ';' ∧
      front.takeWhile (lift isIdentChar) ≠ ['r', 'e', 't', 'u', 'r', 'n'].map char then
    declarator? front
  else none

def declarationIn (cells : List Cell) : Option (List Cell) :=
  declaresBefore (cells.takeWhile (lift isDeclChar)) (stop? (cells.dropWhile (lift isDeclChar)))

def declaredIn (cells : List Cell) : Option (List Cell) :=
  if cells.takeWhile (lift isDeclChar) = ['f', 'o', 'r', ' '].map char ∧
      stop? (cells.dropWhile (lift isDeclChar)) = some '(' then
    declarationIn (cells.dropWhile (lift isDeclChar)).tail
  else declarationIn cells

/-- What is read does not hang on the holes: the blank in front of a value, the first word of a
statement and the word in front of a bracket are fixed text. -/
def isFixed (front : List Cell) (stop : Option Char) : Bool :=
  if stop = some '=' then front.getLast?.all isChar
  else if stop = some ';' then (front.takeWhile (lift isIdentChar)).all isChar
  else if stop = some '(' then front.all isChar || !front.contains (.char ' ')
  else true

def isFixedLine (cells : List Cell) : Bool :=
  let rest := cells.dropWhile (lift isDeclChar)
  isFixed (cells.takeWhile (lift isDeclChar)) (stop? rest) &&
    isFixed (rest.tail.takeWhile (lift isDeclChar)) (stop? (rest.tail.dropWhile (lift isDeclChar)))

@[simp] theorem fill_cons_char (e : Filling) (c : Char) (cells : List Cell) :
    fill e (char c :: cells) = c :: fill e cells := by
  simp [fill, text]

section filled
variable {e : Filling} (he : e.Plain) {front : List Cell}
include he

section split
variable {p : Char → Bool} (hp : ∀ c, isIdentChar c → p c)
include hp

theorem forall_text {c : Cell} (hc : c.lift p) : ∀ x ∈ (c.text e).toList, p x := by
  have hident {text : String} (h : IsIdent text) : ∀ x ∈ text.toList, p x :=
    fun x hx => hp x (h x hx)
  have hdecimal (n : Nat) : IsIdent (Text.decimal n) := by
    intro x hx
    rw [Text.decimal, String.toList_ofList] at hx
    exact isIdentChar_toDigits hx
  have hmark : IsIdent "_length" := isIdent_of_all (by decide)
  cases c with
  | char c =>
    intro x hx
    rw [Cell.text, String.toList_ofList, List.mem_singleton] at hx
    exact hx ▸ hc
  | value => exact hident he.value
  | length => exact hident (he.value.append hmark)
  | helper => exact hident he.helper
  | number => exact hident (hdecimal e.number)
  | index => exact hident (hdecimal e.index)
  | quoted => cases hc

theorem split_fill (hquote : ¬p '"') (cells : List Cell) :
    (fill e cells).takeWhile p = fill e (cells.takeWhile (lift p)) ∧
      (fill e cells).dropWhile p = fill e (cells.dropWhile (lift p)) := by
  induction cells with
  | nil => exact ⟨rfl, rfl⟩
  | cons c cells ih =>
    change ((c.text e).toList ++ fill e cells).takeWhile p = _ ∧
      ((c.text e).toList ++ fill e cells).dropWhile p = _
    by_cases hc : c.lift p
    · have htext := forall_text he hp hc
      rw [List.takeWhile_append_of_pos htext, List.dropWhile_append_of_pos htext, ih.1, ih.2,
        List.takeWhile_cons_of_pos hc, List.dropWhile_cons_of_pos hc]
      exact ⟨rfl, rfl⟩
    · obtain ⟨x, xs, htext, hx⟩ : ∃ x xs, (c.text e).toList = x :: xs ∧ ¬p x := by
        cases c with
        | char c => exact ⟨c, [], String.toList_ofList, hc⟩
        | quoted => exact ⟨'"', _, String.toList_ofList, hquote⟩
        | _ => exact absurd rfl hc
      rw [List.takeWhile_cons_of_neg hc, List.dropWhile_cons_of_neg hc, htext, List.cons_append,
        List.takeWhile_cons_of_neg hx, List.dropWhile_cons_of_neg hx, ← List.cons_append, ← htext]
      exact ⟨rfl, rfl⟩

omit he hp in
theorem head?_fill_dropWhile (cells : List Cell) :
    (fill e (cells.dropWhile (lift p))).head? = stop? (cells.dropWhile (lift p)) := by
  have hhead := List.head?_dropWhile_not (lift p) cells
  cases hrest : cells.dropWhile (lift p) with
  | nil => rfl
  | cons c rest =>
    rw [hrest] at hhead
    cases c with
    | char c => rw [fill_cons_char, stop?, List.head?_cons]
    | quoted => simp [fill, text, literal, stop?]
    | _ => cases hhead

end split

theorem not_blank_text {c : Cell} (hc : c.lift isIdentChar) : ' ' ∉ (c.text e).toList := by
  intro hblank
  have hident : isIdentChar ' ' := forall_text he (fun _ h => h) hc _ hblank
  cases hident

theorem blank_mem_fill_iff (hfront : ∀ c ∈ front, c.lift isDeclChar) :
    ' ' ∈ fill e front ↔ .char ' ' ∈ front := by
  rw [fill, List.mem_flatMap]
  constructor
  · rintro ⟨c, hc, hblank⟩
    cases c with
    | char x =>
      rw [text, String.toList_ofList, List.mem_singleton] at hblank
      exact hblank ▸ hc
    | quoted => cases hfront _ hc
    | _ => exact absurd hblank (not_blank_text he rfl)
  · exact fun h => ⟨_, h, by simp [text]⟩

theorem rtakeWhile_fill (hfront : ∀ c ∈ front, c.lift isDeclChar) :
    (fill e front).rtakeWhile isIdentChar = fill e (front.rtakeWhile (lift isIdentChar)) := by
  induction front using List.reverseRecOn with
  | nil => rfl
  | append_singleton front c ih =>
    rw [List.forall_mem_append, List.forall_mem_singleton] at hfront
    rw [fill_append]
    by_cases hc : c.lift isIdentChar
    · have htext : ∀ x ∈ (fill e [c]).reverse, isIdentChar x := by
        intro x hx
        rw [List.mem_reverse, fill, List.flatMap_singleton] at hx
        exact forall_text he (fun _ h => h) hc x hx
      rw [List.rtakeWhile_concat_pos _ _ _ hc, fill_append, ← ih hfront.1, List.rtakeWhile,
        List.reverse_append, List.takeWhile_append_of_pos htext, List.reverse_append,
        List.reverse_reverse, List.rtakeWhile]
    · rw [List.rtakeWhile_concat_neg _ _ _ hc, fill_nil]
      cases c with
      | char x =>
        rw [fill_cons_char]
        exact List.rtakeWhile_concat_neg _ _ _ hc
      | quoted => cases hfront.2
      | _ => exact absurd rfl hc

theorem declarator?_fill (hfront : ∀ c ∈ front, c.lift isDeclChar) :
    C.declarator? (fill e front) = (declarator? front).map (fill e) := by
  rw [C.declarator?, declarator?]
  by_cases hblank : .char ' ' ∈ front
  · rw [if_pos hblank, if_pos ((blank_mem_fill_iff he hfront).mpr hblank),
      rtakeWhile_fill he hfront]
    rfl
  · rw [if_neg hblank, if_neg fun h => hblank ((blank_mem_fill_iff he hfront).mp h)]
    rfl

omit he in
/-- Cells without holes are filled in one way. -/
theorem fill_eq_iff (h : front.all isChar) (cs : List Char) :
    fill e front = cs ↔ front = cs.map char := by
  induction front generalizing cs with
  | nil => cases cs <;> simp
  | cons c front ih =>
    rw [List.all_cons, Bool.and_eq_true] at h
    cases c with
    | char c =>
      rw [fill_cons_char]
      cases cs with
      | nil => simp
      | cons d cs => simp [ih h.2]
    | _ => cases h.1

omit he in
theorem fill_dropLast (h : front.getLast?.all isChar) :
    (fill e front).dropLast = fill e front.dropLast := by
  induction front using List.reverseRecOn with
  | nil => rfl
  | append_singleton front c ih =>
    rw [List.getLast?_concat, Option.all_some] at h
    cases c with
    | char c => simp
    | _ => cases h

theorem declaresBefore_fill (hfront : ∀ c ∈ front, c.lift isDeclChar) {stop : Option Char}
    (hfixed : isFixed front stop) :
    C.declaresBefore (fill e front) stop = (declaresBefore front stop).map (fill e) := by
  rw [C.declaresBefore, declaresBefore]
  rw [isFixed] at hfixed
  split
  · exact declarator?_fill he hfront
  · split
    · rename_i hvalue
      rw [if_pos hvalue] at hfixed
      rw [fill_dropLast hfixed]
      exact declarator?_fill he fun c hc => hfront c (List.mem_of_mem_dropLast hc)
    · rename_i hvalue
      rw [if_neg hvalue] at hfixed
      by_cases hend : stop = some ';'
      · rw [if_pos hend] at hfixed
        have hword := (split_fill he (fun _ h => h) (by decide) front).1
        have hreturn := fill_eq_iff (e := e) hfixed ['r', 'e', 't', 'u', 'r', 'n']
        simp only [hend, true_and, hword, ne_eq, hreturn]
        split
        · exact declarator?_fill he hfront
        · rfl
      · simp [hend]

/-- The words in front of a line, and what stands behind them. -/
theorem split_line (cells : List Cell) :
    (fill e cells).takeWhile isDeclChar = fill e (cells.takeWhile (lift isDeclChar)) ∧
      (fill e cells).dropWhile isDeclChar = fill e (cells.dropWhile (lift isDeclChar)) := by
  have hdecl (c : Char) (hc : isIdentChar c) : isDeclChar c := by
    rw [isDeclChar, hc]
    rfl
  exact split_fill he hdecl (by decide) cells

theorem declarationIn_fill {cells : List Cell}
    (hfixed : isFixed (cells.takeWhile (lift isDeclChar))
      (stop? (cells.dropWhile (lift isDeclChar)))) :
    C.declarationIn (fill e cells) = (declarationIn cells).map (fill e) := by
  obtain ⟨hfront, hrest⟩ := split_line he cells
  rw [C.declarationIn, declarationIn, hfront, hrest, head?_fill_dropWhile,
    declaresBefore_fill he (fun c hc => List.mem_takeWhile_imp hc) hfixed]

/-- Fixed words in front of a bracket, or words without a blank, open a loop or do not. -/
theorem fill_eq_loop_iff (hfront : ∀ c ∈ front, c.lift isDeclChar)
    (hfixed : isFixed front (some '(')) :
    fill e front = ['f', 'o', 'r', ' '] ↔ front = ['f', 'o', 'r', ' '].map char := by
  rw [isFixed, if_neg (by decide), if_neg (by decide), if_pos rfl, Bool.or_eq_true] at hfixed
  rcases hfixed with hchars | hblank
  · exact fill_eq_iff hchars _
  · have hblank : .char ' ' ∉ front := by simpa using hblank
    constructor
    · intro h
      refine absurd ((blank_mem_fill_iff he hfront).mp ?_) hblank
      rw [h]
      decide
    · intro h
      rw [h] at hblank
      exact absurd (by decide) hblank

/-- What is read in a line does not depend on what its holes are filled with. -/
theorem declaredIn_fill {cells : List Cell} (hfixed : isFixedLine cells) :
    C.declaredIn (fill e cells) = (declaredIn cells).map (fill e) := by
  obtain ⟨hfixed, hinner⟩ := Bool.and_eq_true_iff.mp hfixed
  obtain ⟨hfront, hrest⟩ := split_line he cells
  rw [C.declaredIn, declaredIn, hfront, hrest, head?_fill_dropWhile]
  by_cases hstop : stop? (cells.dropWhile (lift isDeclChar)) = some '('
  · rw [hstop] at hfixed
    simp only [hstop, and_true, fill_eq_loop_iff he (fun c hc => List.mem_takeWhile_imp hc) hfixed]
    split
    · have htail : (fill e (cells.dropWhile (lift isDeclChar))).tail =
          fill e (cells.dropWhile (lift isDeclChar)).tail := by
        generalize cells.dropWhile (lift isDeclChar) = rest at hstop
        cases rest with
        | nil => rfl
        | cons c rest =>
          cases c with
          | char c => rw [fill_cons_char, List.tail_cons, List.tail_cons]
          | _ => cases hstop
      rw [htail]
      exact declarationIn_fill he hinner
    · exact declarationIn_fill he (hstop ▸ hfixed)
  · rw [if_neg fun h => hstop h.2, if_neg fun h => hstop h.2]
    exact declarationIn_fill he hfixed

end filled

/-- The lines declare these names, whatever their holes are filled with. -/
def declares (lines names : List (List Cell)) : Bool :=
  lines.all isFixedLine && decide (lines.filterMap declaredIn = names)

end Cell

/-- The names are these cells, filled. -/
class Named (e : Filling) (names : List String) (cells : outParam (List (List Cell))) : Prop where
  texts : names = cells.map fun name => String.ofList (Cell.fill e name)

section instances
variable {e : Filling} {name : String} {names : List String} {cells : List Cell}
  {rest : List (List Cell)}

instance : Named e [] [] where
  texts := rfl

instance [h : Spelled e name cells] [hrest : Named e names rest] :
    Named e (name :: names) (cells :: rest) where
  texts := by rw [List.map_cons, ← hrest.texts, ← h.toList, String.ofList_toList]

end instances

/-- What generated code declares, whatever its holes are filled with. -/
theorem declared_of_check {e : Filling} {steps : List Step} {lines cells : List (List Cell)}
    {names : List String} [h : Written e steps lines] [hnames : Named e names cells] (he : e.Plain)
    (hcheck : Cell.declares lines cells) : Step.declared steps = names := by
  obtain ⟨hfixed, hread⟩ := Bool.and_eq_true_iff.mp hcheck
  rw [List.all_eq_true] at hfixed
  rw [hnames.texts, ← of_decide_eq_true hread]
  calc Step.declared steps
    _ = (steps.map (·.code.toList)).filterMap fun code => (declaredIn code).map String.ofList := by
      rw [List.filterMap_map]
      rfl
    _ = lines.filterMap fun cells => (declaredIn (Cell.fill e cells)).map String.ofList := by
      rw [h.codes, List.filterMap_map]
      rfl
    _ = lines.filterMap fun cells =>
        (Cell.declaredIn cells).map fun name => String.ofList (Cell.fill e name) := by
      apply List.filterMap_congr
      intro cells hcells
      rw [Cell.declaredIn_fill he (hfixed cells hcells), Option.map_map]
      rfl
    _ = _ := (List.map_filterMap ..).symm

end NativeInterface.C
