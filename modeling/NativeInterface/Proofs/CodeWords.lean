import NativeInterface.C.Item
import NativeInterface.Proofs.Symbols

/-!
# Names in generated code

A reader of C text that finds the variables and fields a piece of code names (`words`). It knows
nothing of how the text was made: it skips string literals and names that are called, and keeps
paths such as `value.x` in one piece. `Uses` says of generated steps that they name given values,
and beside them only the fixed vocabulary of the generators.

Generated lines are fixed text with a few holes in it. What the reader finds in such a line does not
depend on what is filled in (`paths_cells`), so it is computed once for every way of filling it
(`uses_of_check`).
-/

namespace NativeInterface.C

/-! ## Reading -/

/-- A character of a name, or of the marks between the names of a path. -/
def isPathChar (c : Char) : Bool := isIdentChar c || c = '.' || c = '-' || c = '>'

/-- Numbers and operators name nothing. -/
def isName (word : List Char) : Bool := word.any fun c => isIdentChar c && !c.isDigit

/-- Where a reader of C text is: behind a part of a path, or inside a string literal. -/
inductive Reading where
  | code (path : List Char)
  | quoted
  | escaped

/-- All stretches of path characters, but for those that are called. -/
def paths : Reading → List Char → List (List Char)
  | .code path, [] => [path]
  | .code path, c :: cs =>
    if isPathChar c then paths (.code (path ++ [c])) cs
    else if c = '"' then path :: paths .quoted cs
    else if c = '(' then paths (.code []) cs
    else path :: paths (.code []) cs
  | .quoted, [] => []
  | .quoted, c :: cs =>
    if c = '"' then paths (.code []) cs
    else if c = '\\' then paths .escaped cs
    else paths .quoted cs
  | .escaped, [] => []
  | .escaped, _ :: cs => paths .quoted cs

/-- The variables, fields, types and keywords that a line of C names, in order. -/
def words (text : String) : List String :=
  ((paths (.code []) text.toList).filter isName).map String.ofList

/-- What a step writes, without the margin. -/
def Step.code : Step → String
  | .line text | .raw text => text
  | .blank => ""
  | .openBlock head => head ++ " \x7b"
  | .closeBlock tail => "\x7d" ++ tail

@[simp] theorem Step.code_line (text : String) : (Step.line text).code = text := rfl

@[simp] theorem Step.code_openBlock (head : String) :
    (Step.openBlock head).code = head ++ " \x7b" := rfl

@[simp] theorem Step.code_closeBlock (tail : String) :
    (Step.closeBlock tail).code = "\x7d" ++ tail := rfl

def Step.words (steps : List Step) : List String := steps.flatMap fun step => C.words step.code

/-- The words of the generators: keywords, types and the variables that hold a request, a result or
a place in them. -/
def vocabulary : List String :=
  ["if", "for", "return", "continue", "int", "unsigned", "char", "void", "NULL",
    "BridgeTerm", "BridgeBuffer", "env", "pid", "flags", "argc", "argv", "buf", "index", "out",
    "term", "field", "items", "keys", "values", "result", "message", "arity", "i", "key"]

/-- Variables of which a function may need several are numbered. -/
def numberedStems : List String := ["items_", "i_", "cell_", "head_"]

/-- A word of the generators, or one of the given names. -/
def Known (names : List String) (word : String) : Prop :=
  word ∈ vocabulary ∨ (∃ stem ∈ numberedStems, ∃ n, word = stem ++ Text.decimal n) ∨ word ∈ names

/-- The code names all of the given names, and no others. -/
structure Uses (names : List String) (steps : List Step) : Prop where
  known : ∀ word ∈ Step.words steps, Known names word
  used : ∀ name ∈ names, name ≠ "" → name ∈ Step.words steps

theorem Known.mono {names names' : List String} {word : String} (h : Known names word)
    (hnames : names ⊆ names') : Known names' word :=
  h.imp_right (.imp_right (@hnames word))

namespace Uses

theorem nil : Uses [] [] where
  known _ h := (List.not_mem_nil h).elim
  used _ h := (List.not_mem_nil h).elim

theorem append {names names' : List String} {steps steps' : List Step} (h : Uses names steps)
    (h' : Uses names' steps') : Uses (names ++ names') (steps ++ steps') where
  known word hword := by
    rw [Step.words, List.flatMap_append, List.mem_append] at hword
    rcases hword with hword | hword
    · exact (h.known word hword).mono (List.subset_append_left _ _)
    · exact (h'.known word hword).mono (List.subset_append_right _ _)
  used name hname hne := by
    rw [Step.words, List.flatMap_append, List.mem_append]
    rcases List.mem_append.mp hname with hname | hname
    · exact .inl (h.used name hname hne)
    · exact .inr (h'.used name hname hne)

end Uses

/-! ## Reading literals and paths -/

namespace Reading
variable {β : Type} {read : Reading → List Char → β}

/-- A reader that collects the characters of a class takes a whole part of them. -/
theorem code_append {p : Char → Bool}
    (hcode : ∀ path c cs, p c → read (.code path) (c :: cs) = read (.code (path ++ [c])) cs)
    {part : List Char} (h : ∀ c ∈ part, p c) (path rest : List Char) :
    read (.code path) (part ++ rest) = read (.code (path ++ part)) rest := by
  induction part generalizing path with
  | nil => rw [List.nil_append, List.append_nil]
  | cons c part ih =>
    rw [List.cons_append, hcode path c _ (h c List.mem_cons_self),
      ih fun d hd => h d (List.mem_cons_of_mem _ hd), List.append_assoc]
    rfl

/-- A reader that knows of escapes is behind a literal when its last quote is read. -/
theorem quoted_literal
    (hquoted : ∀ c cs, read .quoted (c :: cs) =
      if c = '"' then read (.code []) cs
      else if c = '\\' then read .escaped cs
      else read .quoted cs)
    (hescaped : ∀ c cs, read .escaped (c :: cs) = read .quoted cs) (text rest : List Char) :
    read .quoted (text.flatMap literalChar ++ '"' :: rest) = read (.code []) rest := by
  have hescape (c : Char) (cs : List Char) : read .quoted ('\\' :: c :: cs) = read .quoted cs := by
    rw [hquoted, if_neg (by decide), if_pos rfl, hescaped]
  induction text with
  | nil => rw [List.flatMap_nil, List.nil_append, hquoted, if_pos rfl]
  | cons c text ih =>
    rw [List.flatMap_cons, List.append_assoc, literalChar]
    split
    · exact (hescape _ _).trans ih
    · split
      · exact (hescape _ _).trans ih
      · split
        · exact (hescape _ _).trans ih
        · rename_i hquote hslash _
          rw [List.singleton_append, hquoted, if_neg hquote, if_neg hslash, ih]

end Reading

theorem paths_append {part : List Char} (h : ∀ c ∈ part, isPathChar c) (path rest : List Char) :
    paths (.code path) (part ++ rest) = paths (.code (path ++ part)) rest :=
  Reading.code_append (fun path c cs hc => by rw [paths, if_pos hc]) h path rest

/-- A string literal ends a path and leaves nothing behind. -/
theorem paths_literal (path : List Char) (text : String) (rest : List Char) :
    paths (.code path) ((literal text).toList ++ rest) = path :: paths (.code []) rest := by
  rw [literal, String.toList_ofList, List.append_assoc, List.cons_append, paths,
    if_neg (by decide), if_pos rfl, List.singleton_append]
  exact congrArg _ (Reading.quoted_literal (fun c cs => by rw [paths]) (fun c cs => by rw [paths])
    text.toList rest)

/-! ## Lines with holes -/

/-- A part of a line: a character of its own, or a hole. -/
inductive Cell where
  | char (c : Char)
  /-- The path of the value that the code is about. -/
  | value
  /-- The path of its length. -/
  | length
  /-- The helper that converts it. -/
  | helper
  /-- The number that tells the loop variables apart. -/
  | number
  /-- The place of the value among others. -/
  | index
  /-- A string literal. -/
  | quoted
  deriving DecidableEq

/-- What the holes are filled with. -/
structure Filling where
  value : String := ""
  helper : String := ""
  number : Nat := 0
  index : Nat := 0
  quoted : String := ""

/-- Where a path or a helper is expected, nothing else is filled in. -/
structure Filling.Fits (e : Filling) : Prop where
  value : ∀ c ∈ e.value.toList, isPathChar c
  named : e.value ≠ "" → isName e.value.toList
  helper : ∀ c ∈ e.helper.toList, isPathChar c

namespace Cell

def text (e : Filling) : Cell → String
  | char c => String.ofList [c]
  | value => e.value
  | length => lengthName e.value
  | helper => e.helper
  | number => Text.decimal e.number
  | index => Text.decimal e.index
  | quoted => literal e.quoted

/-- The characters of a line when its holes are filled. -/
def fill (e : Filling) (cells : List Cell) : List Char := cells.flatMap fun c => (c.text e).toList

/-- A cell that stands inside a path. -/
def isPath : Cell → Bool
  | char c => isPathChar c
  | quoted => false
  | _ => true

def isChar : Cell → Bool
  | char _ => true
  | _ => false

/-- All stretches of cells inside paths, but for those that are called. -/
def paths : List Cell → List Cell → List (List Cell)
  | path, [] => [path]
  | path, c :: cs =>
    if c.isPath then paths (path ++ [c]) cs
    else if c = .char '(' then paths [] cs
    else path :: paths [] cs

@[simp] theorem fill_nil (e : Filling) : fill e [] = [] := rfl

@[simp] theorem fill_append (e : Filling) (cells cells' : List Cell) :
    fill e (cells ++ cells') = fill e cells ++ fill e cells' :=
  List.flatMap_append

@[simp] theorem fill_map_char (e : Filling) (cs : List Char) : fill e (cs.map char) = cs := by
  simp [fill, List.flatMap_map, Cell.text]

end Cell

namespace Filling.Fits
variable {e : Filling}

theorem length (he : e.Fits) : ∀ c ∈ (lengthName e.value).toList, isPathChar c := by
  intro c hc
  rw [lengthName, String.toList_append, List.mem_append] at hc
  rcases hc with hc | hc
  · exact he.value c hc
  · have hall : "_length".toList.all isPathChar := by decide
    exact List.all_eq_true.mp hall c hc

theorem isPathChar_decimal (n : Nat) : ∀ c ∈ (Text.decimal n).toList, isPathChar c := by
  intro c hc
  rw [Text.decimal, String.toList_ofList] at hc
  rw [isPathChar, isIdentChar_toDigits hc]
  rfl

/-- A value that has a name is named where it is used. -/
theorem isName_text (he : e.Fits) {c : Cell} (hc : c ∈ [Cell.value, .length])
    (hne : c.text e ≠ "") : isName (c.text e).toList := by
  rcases List.mem_pair.mp hc with rfl | rfl
  · exact he.named hne
  · rw [Cell.text, lengthName, String.toList_append, isName, List.any_append, Bool.or_eq_true]
    exact .inr (by decide)

/-- Every cell inside a path is filled with characters of paths. -/
theorem isPathChar_text (he : e.Fits) {c : Cell} (hc : c.isPath) :
    ∀ x ∈ (c.text e).toList, isPathChar x := by
  cases c with
  | char c =>
    intro x hx
    rw [Cell.text, String.toList_ofList, List.mem_singleton] at hx
    exact hx ▸ hc
  | value => exact he.value
  | length => exact he.length
  | helper => exact he.helper
  | number => exact isPathChar_decimal e.number
  | index => exact isPathChar_decimal e.index
  | quoted => cases hc

end Filling.Fits

/-- What is read in a line does not depend on what its holes are filled with. -/
theorem paths_cells {e : Filling} (he : e.Fits) {cells : List Cell} (h : .char '"' ∉ cells)
    (path : List Cell) :
    paths (.code (Cell.fill e path)) (Cell.fill e cells) =
      (Cell.paths path cells).map (Cell.fill e) := by
  induction cells generalizing path with
  | nil => rfl
  | cons c cells ih =>
    have ih := ih fun hmem => h (List.mem_cons_of_mem _ hmem)
    change paths _ ((c.text e).toList ++ Cell.fill e cells) = _
    rw [Cell.paths]
    by_cases hc : c.isPath
    · rw [if_pos hc, paths_append (he.isPathChar_text hc), ← ih, Cell.fill_append]
      simp [Cell.fill]
    · rw [if_neg hc]
      cases c with
      | char c =>
        have hc : ¬isPathChar c := hc
        have hquote : c ≠ '"' := by
          rintro rfl
          exact h List.mem_cons_self
        rw [Cell.text, String.toList_ofList, List.singleton_append, paths, if_neg hc,
          if_neg hquote]
        by_cases hcall : c = '('
        · rw [if_pos hcall, if_pos (congrArg Cell.char hcall)]
          exact ih []
        · rw [if_neg hcall, if_neg fun h => hcall (Cell.char.inj h), List.map_cons]
          exact congrArg _ (ih [])
      | quoted =>
        rw [if_neg Cell.noConfusion, Cell.text, paths_literal, List.map_cons]
        exact congrArg _ (ih [])
      | _ => exact absurd rfl hc

/-! ## Checking lines -/

/-- The characters of the vocabulary, to compute with. -/
def vocabularyChars : List (List Char) :=
  [['i', 'f'], ['f', 'o', 'r'], ['r', 'e', 't', 'u', 'r', 'n'],
    ['c', 'o', 'n', 't', 'i', 'n', 'u', 'e'], ['i', 'n', 't'],
    ['u', 'n', 's', 'i', 'g', 'n', 'e', 'd'], ['c', 'h', 'a', 'r'], ['v', 'o', 'i', 'd'],
    ['N', 'U', 'L', 'L'], ['B', 'r', 'i', 'd', 'g', 'e', 'T', 'e', 'r', 'm'],
    ['B', 'r', 'i', 'd', 'g', 'e', 'B', 'u', 'f', 'f', 'e', 'r'], ['e', 'n', 'v'], ['p', 'i', 'd'],
    ['f', 'l', 'a', 'g', 's'], ['a', 'r', 'g', 'c'], ['a', 'r', 'g', 'v'], ['b', 'u', 'f'],
    ['i', 'n', 'd', 'e', 'x'], ['o', 'u', 't'], ['t', 'e', 'r', 'm'], ['f', 'i', 'e', 'l', 'd'],
    ['i', 't', 'e', 'm', 's'], ['k', 'e', 'y', 's'], ['v', 'a', 'l', 'u', 'e', 's'],
    ['r', 'e', 's', 'u', 'l', 't'], ['m', 'e', 's', 's', 'a', 'g', 'e'], ['a', 'r', 'i', 't', 'y'],
    ['i'], ['k', 'e', 'y']]

def stemChars : List (List Char) :=
  [['i', 't', 'e', 'm', 's', '_'], ['i', '_'], ['c', 'e', 'l', 'l', '_'],
    ['h', 'e', 'a', 'd', '_']]

theorem map_toList_vocabulary : vocabulary.map String.toList = vocabularyChars := by
  simp only [vocabulary, List.map_cons, List.map_nil]
  repeat rewrite [String.toList_ofList]
  rfl

theorem map_toList_numberedStems : numberedStems.map String.toList = stemChars := by
  simp only [numberedStems, List.map_cons, List.map_nil]
  repeat rewrite [String.toList_ofList]
  rfl

namespace Cell

/-- The characters in front of the first hole. -/
def front : List Cell → List Char
  | char c :: cells => c :: front cells
  | _ => []

/-- A path that is filled to a word of the vocabulary, a numbered variable, a number, or the text of
one of the allowed holes. -/
def permitted (allowed path : List Cell) : Bool :=
  match path.dropWhile isChar with
  | [] => !isName (front path) || vocabularyChars.contains (front path)
  | [number] | [index] => (front path).isEmpty || stemChars.contains (front path)
  | [hole] => (front path).isEmpty && allowed.contains hole
  | _ => false

/-- Every path of every line is permitted, and every allowed hole stands alone somewhere. -/
def check (allowed : List Cell) (lines : List (List Cell)) : Bool :=
  lines.all (fun cells =>
      decide (.char '"' ∉ cells) && (paths [] cells).all (permitted allowed)) &&
    allowed.all fun hole => lines.any fun cells => (paths [] cells).contains [hole]

theorem fill_eq_front (e : Filling) (path : List Cell) :
    fill e path = front path ++ fill e (path.dropWhile isChar) := by
  induction path with
  | nil => rfl
  | cons c path ih =>
    cases c with
    | char c =>
      rw [List.dropWhile_cons_of_pos rfl, front, List.cons_append, ← ih]
      simp [fill, text]
    | _ => simp [front, isChar]

theorem mem_of_contains {ts : List String} {css : List (List Char)} {cs : List Char}
    (hts : ts.map String.toList = css) (h : css.contains cs) : String.ofList cs ∈ ts := by
  rw [← hts, List.contains_iff_mem] at h
  obtain ⟨t, ht, rfl⟩ := List.mem_map.mp h
  rwa [String.ofList_toList]

theorem not_isName_decimal (n : Nat) : ¬isName (Text.decimal n).toList := by
  rw [Text.decimal, String.toList_ofList, isName, List.any_eq_true]
  rintro ⟨c, hc, hletter⟩
  simp [Nat.isDigit_of_mem_toDigits (by decide) (by decide) hc] at hletter

/-- A hole for a number stands behind the stem of a numbered variable. -/
theorem numbered {path front : List Char} {n : Nat}
    (h : front.isEmpty || stemChars.contains front)
    (hpath : path = front ++ ((Text.decimal n).toList ++ [])) (hname : isName path) :
    ∃ stem ∈ numberedStems, ∃ n, String.ofList path = stem ++ Text.decimal n := by
  rw [List.append_nil] at hpath
  subst hpath
  rcases Bool.or_eq_true_iff.mp h with hempty | hstem
  · rw [List.isEmpty_iff.mp hempty] at hname
    exact absurd hname (not_isName_decimal n)
  · refine ⟨String.ofList front, mem_of_contains map_toList_numberedStems hstem, n, ?_⟩
    rw [String.ofList_append, String.ofList_toList]

/-- What a permitted path names is known. -/
theorem known_of_permitted {e : Filling} {allowed path : List Cell}
    (h : permitted allowed path) (hname : isName (fill e path)) :
    Known (allowed.map (text e)) (String.ofList (fill e path)) := by
  have hfill := fill_eq_front e path
  rw [permitted] at h
  split at h
  · rename_i hrest
    rw [hrest, fill_nil, List.append_nil] at hfill
    rw [hfill] at hname ⊢
    rw [hname] at h
    exact .inl (mem_of_contains map_toList_vocabulary h)
  · rename_i hrest
    rw [hrest] at hfill
    exact .inr (.inl (numbered h hfill hname))
  · rename_i hrest
    rw [hrest] at hfill
    exact .inr (.inl (numbered h hfill hname))
  · rename_i hole _ _ hrest
    obtain ⟨hfront, hmem⟩ := Bool.and_eq_true_iff.mp h
    rw [hrest, List.isEmpty_iff.mp hfront] at hfill
    refine .inr (.inr (List.mem_map.mpr ⟨hole, List.contains_iff_mem.mp hmem, ?_⟩))
    rw [hfill]
    simp [fill]
  · cases h

end Cell

/-- The same text; a literal is the same as its list of characters. -/
class SameText (a : String) (b : outParam String) : Prop where
  eq : a = b

/-- The text is this line of cells, filled. -/
class Spelled (e : Filling) (text : String) (cells : outParam (List Cell)) : Prop where
  toList : text.toList = Cell.fill e cells

/-- The steps are these lines of cells, filled. -/
class Written (e : Filling) (steps : List Step) (lines : outParam (List (List Cell))) : Prop where
  codes : steps.map (·.code.toList) = lines.map (Cell.fill e)

section instances
variable {e : Filling} {a b : String} {cs : List Char} {x y : List Cell} {steps steps' : List Step}
  {lines lines' : List (List Cell)}

instance : SameText a a where
  eq := rfl

-- An instance for `String.ofList cs` is not found for a literal, so unification has to find `cs`.
instance (priority := low) [h : SameText a (String.ofList cs)] : Spelled e a (cs.map .char) where
  toList := by rw [h.eq, String.toList_ofList, Cell.fill_map_char]

instance [ha : Spelled e a x] [hb : Spelled e b y] : Spelled e (a ++ b) (x ++ y) where
  toList := by rw [String.toList_append, Cell.fill_append, ha.toList, hb.toList]

instance : Spelled e e.value [.value] where
  toList := (List.append_nil _).symm

instance : Spelled e (lengthName e.value) [.length] where
  toList := (List.append_nil _).symm

instance : Spelled e e.helper [.helper] where
  toList := (List.append_nil _).symm

instance : Spelled e (Text.decimal e.number) [.number] where
  toList := (List.append_nil _).symm

instance : Spelled e (Text.decimal e.index) [.index] where
  toList := (List.append_nil _).symm

instance : Spelled e (literal e.quoted) [.quoted] where
  toList := (List.append_nil _).symm

instance : Written e [] [] where
  codes := rfl

instance [ha : Spelled e a x] [h : Written e steps lines] :
    Written e (.line a :: steps) (x :: lines) where
  codes := by rw [List.map_cons, List.map_cons, h.codes, Step.code_line, ha.toList]

instance [ha : Spelled e a x] [h : Written e steps lines] :
    Written e (.openBlock a :: steps) ((x ++ [' ', '\x7b'].map .char) :: lines) where
  codes := by
    rw [List.map_cons, List.map_cons, h.codes, Step.code_openBlock, String.toList_append, ha.toList,
      String.toList_ofList, Cell.fill_append, Cell.fill_map_char]

instance [h : Written e steps lines] :
    Written e (.closeBlock "" :: steps) (['\x7d'].map .char :: lines) where
  codes := by
    rw [List.map_cons, List.map_cons, h.codes, Step.code_closeBlock, String.append_empty,
      String.toList_ofList, Cell.fill_map_char]

instance [h : Written e steps lines] [h' : Written e steps' lines'] :
    Written e (steps ++ steps') (lines ++ lines') where
  codes := by rw [List.map_append, List.map_append, h.codes, h'.codes]

instance [h : Written e (.openBlock a :: steps ++ [.closeBlock ""]) lines] :
    Written e (block a steps) lines :=
  h

instance {n : String} [h : Written e (block ("for (unsigned int i_" ++ n ++ " = 0; i_" ++ n ++ " < "
      ++ a ++ "; i_" ++ n ++ "++)") steps) lines] : Written e (loop n a steps) lines :=
  h

end instances

/-- Every word of filled lines is one of their paths, filled. -/
theorem mem_words_iff {e : Filling} (he : e.Fits) {text : String} {cells : List Cell}
    (htext : text.toList = Cell.fill e cells) (hquote : .char '"' ∉ cells) {word : String} :
    word ∈ words text ↔
      ∃ path ∈ Cell.paths [] cells, isName (Cell.fill e path) ∧
        String.ofList (Cell.fill e path) = word := by
  have hpaths := paths_cells he hquote []
  rw [Cell.fill_nil, ← htext] at hpaths
  simp [words, hpaths, and_assoc]

/-- Generated code uses what its lines have holes for, whatever they are filled with. -/
theorem uses_of_check {e : Filling} {steps : List Step} {lines : List (List Cell)}
    [h : Written e steps lines] (he : e.Fits) (allowed : List Cell)
    (hallowed : allowed ⊆ [.value, .length])
    (hcheck : Cell.check allowed lines) : Uses (allowed.map (Cell.text e)) steps := by
  simp only [Cell.check, Bool.and_eq_true, List.all_eq_true, List.any_eq_true,
    decide_eq_true_eq, List.contains_iff_mem] at hcheck
  obtain ⟨hlines, hholes⟩ := hcheck
  constructor
  · intro word hword
    obtain ⟨step, hstep, hword⟩ := List.mem_flatMap.mp hword
    have hcode : step.code.toList ∈ lines.map (Cell.fill e) :=
      h.codes ▸ List.mem_map_of_mem hstep
    obtain ⟨cells, hcells, hfill⟩ := List.mem_map.mp hcode
    obtain ⟨hquote, hpermitted⟩ := hlines cells hcells
    obtain ⟨path, hpath, hname, rfl⟩ := (mem_words_iff he hfill.symm hquote).mp hword
    exact Cell.known_of_permitted (hpermitted path hpath) hname
  · intro name hname hne
    obtain ⟨hole, hhole, rfl⟩ := List.mem_map.mp hname
    obtain ⟨cells, hcells, hpath⟩ := hholes hole hhole
    have hcode : Cell.fill e cells ∈ steps.map (·.code.toList) :=
      h.codes ▸ List.mem_map_of_mem hcells
    obtain ⟨step, hstep, hfill⟩ := List.mem_map.mp hcode
    refine List.mem_flatMap.mpr ⟨step, hstep, ?_⟩
    refine (mem_words_iff he hfill (hlines cells hcells).1).mpr ⟨[hole], hpath, ?_, ?_⟩
    · rw [Cell.fill, List.flatMap_singleton]
      exact he.isName_text (hallowed hhole) hne
    · simp [Cell.fill]

end NativeInterface.C
