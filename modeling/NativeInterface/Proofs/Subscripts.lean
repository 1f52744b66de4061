import NativeInterface.Proofs.Blocks
import NativeInterface.Proofs.DeclaredNames

/-!
# Subscripts in generated code

A reader of C text that finds the variables which are subscripted, with the subscripts
(`subscripts`). In a line with holes it finds the same whatever the holes are filled with
(`subscripts_of_check`). The code that takes the arguments of a request apart subscripts the request
once or twice for each of them, and beside it only arguments that are lists (`ReadsPlaces`).
-/

namespace NativeInterface.C

/-! ## Reading -/

/-- A character of a subscript. -/
def isInBrackets (c : Char) : Bool := c ≠ ']' && c ≠ '"'

/-- All names that are followed by a bracket, with what stands in it. -/
def subscripts : Reading → List Char → List (List Char × List Char)
  | _, [] => []
  | .code word, c :: cs =>
    if isIdentChar c then subscripts (.code (word ++ [c])) cs
    else if c = '"' then subscripts .quoted cs
    else if c = '[' then (word, cs.takeWhile isInBrackets) :: subscripts (.code []) cs
    else subscripts (.code []) cs
  | .quoted, c :: cs =>
    if c = '"' then subscripts (.code []) cs
    else if c = '\\' then subscripts .escaped cs
    else subscripts .quoted cs
  | .escaped, _ :: cs => subscripts .quoted cs

/-- The variables that code subscripts, with the subscripts. -/
def Step.subscripts (steps : List Step) : List (String × String) :=
  steps.flatMap fun step => (C.subscripts (.code []) step.code.toList).map
    fun p => (String.ofList p.1, String.ofList p.2)

@[simp] theorem Step.subscripts_append (steps steps' : List Step) :
    Step.subscripts (steps ++ steps') = Step.subscripts steps ++ Step.subscripts steps' :=
  List.flatMap_append

theorem subscripts_of_notMem {text : List Char} (h : '[' ∉ text) (r : Reading) :
    subscripts r text = [] := by
  induction text generalizing r with
  | nil => cases r <;> rfl
  | cons c cs ih =>
    have hcs := ih fun hmem => h (List.mem_cons_of_mem _ hmem)
    have hc : c ≠ '[' := fun heq => h (heq ▸ List.mem_cons_self)
    cases r <;> simp [subscripts, hc, hcs]

theorem Step.subscripts_of_notMem {steps : List Step} (h : ∀ step ∈ steps, '[' ∉ step.code.toList) :
    Step.subscripts steps = [] := by
  refine List.flatMap_eq_nil_iff.mpr fun step hstep => ?_
  rw [C.subscripts_of_notMem (h step hstep), List.map_nil]

theorem subscripts_append {part : List Char} (h : ∀ c ∈ part, isIdentChar c)
    (word rest : List Char) :
    subscripts (.code word) (part ++ rest) = subscripts (.code (word ++ part)) rest :=
  Reading.code_append (fun word c cs hc => by rw [subscripts, if_pos hc]) h word rest

theorem subscripts_literal (word : List Char) (text : String) (rest : List Char) :
    subscripts (.code word) ((literal text).toList ++ rest) = subscripts (.code []) rest := by
  rw [literal, String.toList_ofList, List.append_assoc, List.cons_append, subscripts,
    if_neg (by decide), if_pos rfl, List.singleton_append]
  exact Reading.quoted_literal (fun c cs => by rw [subscripts]) (fun c cs => by rw [subscripts])
    text.toList rest

namespace Cell

/-- All stretches of cells that are followed by a bracket, with what stands in it. -/
def subscripts : List Cell → List Cell → List (List Cell × List Cell)
  | _, [] => []
  | word, c :: cs =>
    if c.lift isIdentChar then subscripts (word ++ [c]) cs
    else if c = .char '[' then (word, cs.takeWhile (lift isInBrackets)) :: subscripts [] cs
    else subscripts [] cs

/-- Both parts of a subscripted name, filled. -/
def fillBoth (e : Filling) (p : List Cell × List Cell) : List Char × List Char :=
  (fill e p.1, fill e p.2)

/-- What is subscripted in a line does not depend on what its holes are filled with. -/
theorem subscripts_fill {e : Filling} (he : e.Plain) {cells : List Cell} (h : .char '"' ∉ cells)
    (word : List Cell) :
    C.subscripts (.code (fill e word)) (fill e cells) =
      (subscripts word cells).map (fillBoth e) := by
  induction cells generalizing word with
  | nil => rfl
  | cons c cells ih =>
    have ih := ih fun hmem => h (List.mem_cons_of_mem _ hmem)
    change C.subscripts _ ((c.text e).toList ++ fill e cells) = _
    rw [subscripts]
    by_cases hc : c.lift isIdentChar
    · rw [if_pos hc, subscripts_append (forall_text he (fun _ => id) hc), ← ih, fill_append]
      simp [fill]
    · rw [if_neg hc]
      cases c with
      | char c =>
        have hc : ¬isIdentChar c := hc
        have hquote : c ≠ '"' := by
          rintro rfl
          exact h List.mem_cons_self
        rw [Cell.text, String.toList_ofList, List.singleton_append, C.subscripts, if_neg hc,
          if_neg hquote]
        by_cases hopen : c = '['
        · have hinner : ∀ c, isIdentChar c → isInBrackets c := by
            intro c hident
            have hclose : c ≠ ']' ∧ c ≠ '"' := by
              constructor
              all_goals
                rintro rfl
                cases hident
            simp [isInBrackets, hclose]
          rw [if_pos hopen, if_pos (congrArg Cell.char hopen), List.map_cons, fillBoth,
            (split_fill he hinner (by decide) cells).1]
          exact congrArg _ (ih [])
        · rw [if_neg hopen, if_neg fun h => hopen (Cell.char.inj h)]
          exact ih []
      | quoted =>
        rw [if_neg Cell.noConfusion, Cell.text, subscripts_literal]
        exact ih []
      | _ => exact absurd rfl hc

/-- The lines subscript these names, whatever their holes are filled with. -/
def subscribes (lines : List (List Cell)) (expected : List (List Cell × List Cell)) : Bool :=
  lines.all (fun cells => decide (.char '"' ∉ cells)) &&
    decide (lines.flatMap (subscripts []) = expected)

end Cell

/-- The subscripted names are these cells, filled. -/
class Subscribed (e : Filling) (read : List (String × String))
    (cells : outParam (List (List Cell × List Cell))) : Prop where
  texts : read = cells.map fun p =>
    (String.ofList (Cell.fill e p.1), String.ofList (Cell.fill e p.2))

section instances
variable {e : Filling} {name place : String} {x y : List Cell} {read : List (String × String)}
  {cells : List (List Cell × List Cell)}

instance : Subscribed e [] [] where
  texts := rfl

instance [hname : Spelled e name x] [hplace : Spelled e place y] [hread : Subscribed e read cells] :
    Subscribed e ((name, place) :: read) ((x, y) :: cells) where
  texts := by
    rw [List.map_cons, ← hread.texts, ← hname.toList, ← hplace.toList, String.ofList_toList,
      String.ofList_toList]

end instances

/-- What generated code subscripts, whatever its holes are filled with. -/
theorem subscripts_of_check {e : Filling} {steps : List Step} {lines : List (List Cell)}
    {read : List (String × String)} {cells : List (List Cell × List Cell)}
    [h : Written e steps lines] [hread : Subscribed e read cells] (he : e.Plain)
    (hcheck : Cell.subscribes lines cells) : Step.subscripts steps = read := by
  obtain ⟨hquote, hcells⟩ := Bool.and_eq_true_iff.mp hcheck
  rw [List.all_eq_true] at hquote
  rw [hread.texts, ← of_decide_eq_true hcells, List.map_flatMap]
  calc Step.subscripts steps
    _ = (steps.map (·.code.toList)).flatMap fun code => (subscripts (.code []) code).map
        fun p => (String.ofList p.1, String.ofList p.2) := by
      rw [List.flatMap_map]
      rfl
    _ = lines.flatMap fun cells => (subscripts (.code []) (Cell.fill e cells)).map
        fun p => (String.ofList p.1, String.ofList p.2) := by
      rw [h.codes, List.flatMap_map]
    _ = _ := by
      refine List.flatMap_congr fun cells hcells => ?_
      have hfill := Cell.subscripts_fill he (of_decide_eq_true (hquote cells hcells)) []
      rw [Cell.fill_nil] at hfill
      rw [hfill, List.map_map]
      rfl


/-! ## Arguments -/

/-- What code for arguments subscripts: each of them in the request, and those that are lists. -/
structure ReadsPlaces (xs : List (Param × Nat)) (read : List (String × String)) : Prop where
  only : ∀ y ∈ read, ∃ x ∈ xs, y = ("argv", Text.decimal x.2) ∨
    x.1.type.isList ∧ ∃ n, y = (ident x.1.name, "i_" ++ Text.decimal n)
  all : ∀ x ∈ xs, ("argv", Text.decimal x.2) ∈ read
  lists : ∀ x ∈ xs, x.1.type.isList → ∃ n, (ident x.1.name, "i_" ++ Text.decimal n) ∈ read

theorem ReadsPlaces.append {xs xs' : List (Param × Nat)} {read read' : List (String × String)}
    (h : ReadsPlaces xs read) (h' : ReadsPlaces xs' read') :
    ReadsPlaces (xs ++ xs') (read ++ read') where
  only y hy := by
    rcases List.mem_append.mp hy with hy | hy
    · obtain ⟨x, hx, hread⟩ := h.only y hy
      exact ⟨x, List.mem_append_left _ hx, hread⟩
    · obtain ⟨x, hx, hread⟩ := h'.only y hy
      exact ⟨x, List.mem_append_right _ hx, hread⟩
  all := List.forall_mem_append.mpr ⟨fun x hx => List.mem_append_left _ (h.all x hx),
    fun x hx => List.mem_append_right _ (h'.all x hx)⟩
  lists x hx hlist := by
    rcases List.mem_append.mp hx with hx | hx
    · obtain ⟨n, hn⟩ := h.lists x hx hlist
      exact ⟨n, List.mem_append_left _ hn⟩
    · obtain ⟨n, hn⟩ := h'.lists x hx hlist
      exact ⟨n, List.mem_append_right _ hn⟩


theorem bracket_notMem_of_isDeclChar {text : List Char} (h : ∀ c ∈ text, isDeclChar c) :
    '[' ∉ text := by
  intro hmem
  cases h _ hmem

theorem bracket_notMem_localText {decl : String} (h : '[' ∉ decl.toList) :
    '[' ∉ (localText decl).toList := by
  have hvalue : ∀ value ∈ ["NULL", "\x7b0\x7d"], '[' ∉ value.toList := by decide
  have hframe : '[' ∉ " = ".toList ∧ '[' ∉ ";".toList := by decide
  rw [localText, String.toList_append, String.toList_append, String.toList_append]
  simp only [List.mem_append, not_or]
  refine ⟨⟨⟨h, hframe.1⟩, ?_⟩, hframe.2⟩
  split
  · exact hvalue _ List.mem_cons_self
  · exact hvalue _ (List.mem_cons_of_mem _ List.mem_cons_self)

/-- The locals of a wrapper subscript nothing. -/
theorem bracket_notMem_valueLocals (s : Surface) (name : String) (type : Ty) :
    ∀ text ∈ valueLocals s name type, '[' ∉ text.toList := by
  intro text htext
  obtain ⟨decl, hdecl, rfl⟩ := List.mem_map.mp htext
  exact bracket_notMem_localText
    (bracket_notMem_of_isDeclChar (isDeclChar_valueDecls s name type decl hdecl))

/-- The call of an implementation subscripts nothing. -/
theorem bracket_notMem_callText (s : Surface) (f : NativeFunction) :
    '[' ∉ (callText s f).toList := by
  have hident {text : String} (h : IsIdent text) : '[' ∉ text.toList :=
    bracket_notMem_of_isDeclChar h.isDecl
  have hname : '[' ∉ (implName s f).toList := hident (isIdent_implName s f)
  have harguments : ∀ argument ∈ callArguments f, '[' ∉ argument.toList := by
    intro argument hargument
    rcases List.mem_cons.mp hargument with rfl | hargument
    · decide
    · obtain ⟨p, -, hp⟩ := List.mem_flatMap.mp hargument
      exact hident (isIdent_valueNames p.name p.type argument hp)
  have hjoined : '[' ∉ (Text.join ", " (callArguments f)).toList :=
    notMem_join (by decide) harguments
  have hframe : '[' ∉ "return ".toList ∧ '[' ∉ "(".toList ∧ '[' ∉ ");".toList := by decide
  simp only [callText, String.toList_append, List.mem_append, not_or]
  exact ⟨⟨⟨⟨hframe.1, hname⟩, hframe.2.1⟩, hjoined⟩, hframe.2.2⟩

end NativeInterface.C

namespace NativeInterface
open C

namespace Nif
variable {s : Surface} {e : Filling}

-- This code has more parts than the search for instances expects of a class.
set_option synthInstance.maxSize 256 in
theorem subscripts_decode_list (he : e.Plain) {element : Ty}
    (hhelper : e.helper = helper s "get" element) {n : Nat} (hnumber : e.number = n + 1) :
    Step.subscripts ((decode s (.list element) ("argv[" ++ Text.decimal e.index ++ "]") e.value
        ("return bridge_raise_badarg(env, " ++ literal e.quoted ++ ");")).run n).1 =
      [("argv", Text.decimal e.index), ("argv", Text.decimal e.index),
        (e.value, "i_" ++ Text.decimal e.number)] := by
  unfold decode
  change Step.subscripts (block _ _) = _
  rw [← hhelper, ← hnumber]
  exact subscripts_of_check he rfl

theorem subscripts_decode_one (he : e.Plain) {type : Ty}
    (hhelper : e.helper = helper s "get" type) :
    Step.subscripts (block ("if (!" ++ helper s "get" type ++ "(env, "
        ++ ("argv[" ++ Text.decimal e.index ++ "]") ++ ", &" ++ e.value ++ "))")
        [.line ("return bridge_raise_badarg(env, " ++ literal e.quoted ++ ");")]) =
      [("argv", Text.decimal e.index)] := by
  rw [← hhelper]
  exact subscripts_of_check he rfl

theorem readsPlaces_decode (name : String) (type : Ty) (i n : Nat) :
    ReadsPlaces [(⟨name, type⟩, i)] (Step.subscripts ((decode s type
      ("argv[" ++ Text.decimal i ++ "]") (ident name)
      ("return bridge_raise_badarg(env, " ++ literal name ++ ");")).run n).1) := by
  let e : Filling :=
    { value := ident name, helper := helper s "get" (elementType type), number := n + 1,
      index := i, quoted := name }
  have he : e.Plain := ⟨isIdent_ident name, isIdent_helper s (isIdent_of_all (by decide)) _⟩
  have hone {type : Ty} (htype : ¬type.isList) {read : List (String × String)}
      (h : read = [("argv", Text.decimal i)]) : ReadsPlaces [(⟨name, type⟩, i)] read := by
    subst h
    exact ⟨fun y hy => ⟨_, List.mem_singleton_self _, .inl (List.mem_singleton.mp hy)⟩,
      List.forall_mem_singleton.mpr (List.mem_singleton_self _),
      List.forall_mem_singleton.mpr fun hlist => absurd hlist htype⟩
  cases type with
  | list element =>
    have hread := @subscripts_decode_list s e he element rfl n rfl
    rw [hread]
    refine ⟨fun y hy => ⟨_, List.mem_singleton_self _, ?_⟩,
      List.forall_mem_singleton.mpr List.mem_cons_self,
      List.forall_mem_singleton.mpr fun _ => ⟨n + 1, by simp [e]⟩⟩
    simp only [List.mem_cons, List.not_mem_nil, or_false] at hy
    rcases hy with rfl | rfl | rfl
    · exact .inl rfl
    · exact .inl rfl
    · exact .inr ⟨rfl, n + 1, rfl⟩
  | named leaf =>
    have htype : ¬(Ty.named leaf).isList := Bool.false_ne_true
    exact hone htype (subscripts_decode_one he rfl)
  | label =>
    have htype : ¬Ty.label.isList := Bool.false_ne_true
    exact hone htype (subscripts_decode_one he rfl)

theorem readsPlaces_collect (xs : List (Param × Nat)) (n : Nat) :
    ReadsPlaces xs
      (Step.subscripts ((collect (fun x => decodeParam s x.1 x.2) xs).run n).1) := by
  induction xs generalizing n with
  | nil =>
    exact ⟨fun y hy => (List.not_mem_nil hy).elim, fun x hx => (List.not_mem_nil hx).elim,
      fun x hx => (List.not_mem_nil hx).elim⟩
  | cons x xs ih =>
    have hx := readsPlaces_decode (s := s) x.1.name x.1.type x.2 n
    have hboth := hx.append (ih ((decodeParam s x.1 x.2).run n).2)
    rw [← Step.subscripts_append] at hboth
    exact hboth

end Nif

end NativeInterface
