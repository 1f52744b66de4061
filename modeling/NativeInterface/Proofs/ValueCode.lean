import NativeInterface.Backend.CNode
import NativeInterface.Backend.Nif
import NativeInterface.Proofs.DeclaredNames

/-!
# Code for one value

The code that converts a value names the value, and its length if it is a list, as they are
declared. For a list it declares variables with a number that no list before it has (`Fresh`). Both
are computed from lines with holes (`Filled`), and hold of every piece of code that the generators
write for a value (`Converts`).
-/

namespace NativeInterface.C
variable {stems : List String} {steps : List Step} {names : List String}

/-! ## Numbered variables -/

/-- A stem with a number behind it. -/
def isNumbered (stems : List String) (word : String) : Bool :=
  stems.any fun stem =>
    stem.toList.isPrefixOf word.toList && !(word.toList.drop stem.length).isEmpty &&
      (word.toList.drop stem.length).all Char.isDigit

theorem isNumbered_append {stem : String} (h : stem ∈ stems) (n : Nat) :
    isNumbered stems (stem ++ Text.decimal n) := by
  refine List.any_eq_true.mpr ⟨stem, h, ?_⟩
  have hdrop : (stem ++ Text.decimal n).toList.drop stem.length = Nat.toDigits 10 n := by
    rw [String.toList_append, ← String.length_toList, List.drop_left, Text.decimal,
      String.toList_ofList]
  have hdigits : ∀ c ∈ Nat.toDigits 10 n, c.isDigit := fun c hc =>
    Nat.isDigit_of_mem_toDigits (by decide) (by decide) hc
  rw [hdrop, Bool.and_eq_true, Bool.and_eq_true, List.isPrefixOf_iff_prefix, String.toList_append,
    List.all_eq_true]
  exact ⟨⟨List.prefix_append _ _, by simp⟩, hdigits⟩

/-- Stems end in an underscore, so a number is read off its variable. -/
theorem numbered_inj {stem stem' : String} (h : stem ∈ numberedStems) (h' : stem' ∈ numberedStems)
    {n m : Nat} (heq : stem ++ Text.decimal n = stem' ++ Text.decimal m) : n = m := by
  have hmark : ∀ stem ∈ numberedStems, ∃ front, stem.toList = front ++ ['_'] := by
    have hlast : ∀ stem ∈ numberedStems, stem.toList.getLast? = some '_' := by decide
    exact fun stem hstem => List.getLast?_eq_some_iff.mp (hlast stem hstem)
  obtain ⟨front, hfront⟩ := hmark stem h
  obtain ⟨front', hfront'⟩ := hmark stem' h'
  have hlists := congrArg String.toList heq
  simp only [String.toList_append, hfront, hfront', Text.decimal, String.toList_ofList,
    List.append_assoc, List.singleton_append] at hlists
  exact toDigits_inj (append_underscore (underscore_notMem_toDigits _)
    (underscore_notMem_toDigits _) hlists).2

/-- Different variables that are numbered behind `n`, up to `m`. -/
structure Fresh (stems : List String) (n m : Nat) (names : List String) : Prop where
  le : n ≤ m
  nodup : names.Nodup
  numbered : ∀ name ∈ names, ∃ stem ∈ stems, ∃ k, n < k ∧ k ≤ m ∧ name = stem ++ Text.decimal k

namespace Fresh
variable {stems : List String} {n m k : Nat} {names names' : List String}

theorem of_nil (h : names = []) : Fresh stems n n names where
  le := Nat.le_refl n
  nodup := h ▸ List.nodup_nil
  numbered name hname := by
    rw [h] at hname
    exact (List.not_mem_nil hname).elim

/-- Numbers that were handed out later are different from those before. -/
theorem append (hstems : stems ⊆ numberedStems) (h : Fresh stems n m names)
    (h' : Fresh stems m k names') : Fresh stems n k (names ++ names') where
  le := h.le.trans h'.le
  nodup := by
    refine List.nodup_append.mpr ⟨h.nodup, h'.nodup, fun name hname name' hname' heq => ?_⟩
    obtain ⟨stem, hstem, i, -, hi, rfl⟩ := h.numbered name hname
    obtain ⟨stem', hstem', j, hj, -, rfl⟩ := h'.numbered name' hname'
    have hij := numbered_inj (hstems hstem) (hstems hstem') heq
    omega
  numbered name hname := by
    have := h.le
    have := h'.le
    rcases List.mem_append.mp hname with hname | hname
    · obtain ⟨stem, hstem, i, hi, him, rfl⟩ := h.numbered name hname
      exact ⟨stem, hstem, i, hi, by omega, rfl⟩
    · obtain ⟨stem, hstem, i, hi, him, rfl⟩ := h'.numbered name hname
      exact ⟨stem, hstem, i, by omega, him, rfl⟩

/-- Variables of one number, one for each stem. -/
theorem of_stems (hstems : stems.Nodup) (n : Nat) :
    Fresh stems n (n + 1) (stems.map (· ++ Text.decimal (n + 1))) where
  le := Nat.le_succ n
  nodup := hstems.map fun a b h => by simpa using h
  numbered name hname := by
    obtain ⟨stem, hstem, rfl⟩ := List.mem_map.mp hname
    exact ⟨stem, hstem, n + 1, Nat.lt_succ_self n, Nat.le_refl _, rfl⟩

theorem isNumbered (h : Fresh stems n m names) : ∀ name ∈ names, C.isNumbered stems name := by
  intro name hname
  obtain ⟨stem, hstem, k, -, -, rfl⟩ := h.numbered name hname
  exact isNumbered_append hstem k

end Fresh

/-- The code declares nothing but variables with the numbers that it takes. -/
def DeclaresFresh (stems : List String) (code : Numbered (List Step)) : Prop :=
  ∀ n, Fresh stems n (code.run n).2 (Step.declared (code.run n).1)

theorem declaresFresh_collect {α : Type} (hstems : stems ⊆ numberedStems)
    {f : α → Numbered (List Step)} (h : ∀ x, DeclaresFresh stems (f x)) (xs : List α) :
    DeclaresFresh stems (collect f xs) := by
  induction xs with
  | nil => exact fun n => .of_nil rfl
  | cons x xs ih =>
    intro n
    have hboth := (h x n).append hstems (ih ((f x).run n).2)
    rwa [← Step.declared_append] at hboth

/-! ## Lines with holes -/

/-- The lines name what the allowed holes are filled with, and declare these names. -/
def Cell.accepts (allowed : List Cell) (lines names : List (List Cell)) : Bool :=
  allowed.all [value, length].contains && check allowed lines && declares lines names

/-- Code with holes in it. -/
structure Filled (e : Filling) (allowed : List Cell) (names : List String) (steps : List Step) :
    Prop where
  uses : e.Fits → Uses (allowed.map (Cell.text e)) steps
  declared : e.Plain → Step.declared steps = names

theorem filled_of_check {e : Filling} {lines cells : List (List Cell)} {allowed : List Cell}
    [Written e steps lines] [Named e names cells] (h : Cell.accepts allowed lines cells) :
    Filled e allowed names steps := by
  obtain ⟨h, hdeclares⟩ := Bool.and_eq_true_iff.mp h
  obtain ⟨hallowed, hcheck⟩ := Bool.and_eq_true_iff.mp h
  refine ⟨fun he => uses_of_check he allowed (fun c hc => ?_) hcheck,
    fun he => declared_of_check he hdeclares⟩
  exact List.contains_iff_mem.mp (List.all_eq_true.mp hallowed c hc)

/-- Code that names no value and declares these names. -/
structure Frames (names : List String) (steps : List Step) : Prop where
  uses : Uses [] steps
  declared : Step.declared steps = names

theorem Filled.frames {index : Nat} {quoted : String}
    (h : Filled { index, quoted } [] names steps) : Frames names steps :=
  ⟨h.uses (Filling.fits_plain index quoted), h.declared (Filling.plain_empty index quoted)⟩

/-- Code without holes. -/
theorem frames_of_check {lines cells : List (List Cell)} [Written {} steps lines]
    [Named {} names cells] (h : Cell.accepts [] lines cells) : Frames names steps :=
  (filled_of_check (e := {}) h).frames

theorem Frames.ite {p : Prop} [Decidable p] (h : Frames [] steps) :
    Frames [] (if p then steps else []) := by
  split
  · exact h
  · exact ⟨.nil, rfl⟩

/-! ## Values -/

/-- The code names the value, and what it declares has the numbers that it takes. -/
structure Converts (s : Surface) (stems : List String) (path name : String) (type : Ty)
    (code : Numbered (List Step)) : Prop where
  handles : ∀ n, Handles s path name type (code.run n).1
  fresh : path = "" → DeclaresFresh stems code

/-- The holes of code for a value. -/
def Cell.holes (type : Ty) : List Cell := if type.isList then [value, length] else [value]

theorem converts_of_filled {s : Surface} {op path name : String} {type : Ty}
    {code : Numbered (List Step)} (e : Filling) (hop : IsIdent op) (hpath : path ∈ valuePaths)
    (hstems : stems.Nodup) (hnext : ∀ n, (code.run n).2 = if type.isList then n + 1 else n)
    (h : ∀ n, Filled
      { e with
      value := path ++ ident name
      helper := helper s op (elementType type)
      number := n + 1 } (Cell.holes type)
      (if type.isList then stems.map (· ++ Text.decimal (n + 1)) else []) (code.run n).1) :
    Converts s stems path name type code where
  handles n := by
    have huses := (h n).uses (Filling.fits_value hpath rfl (isIdent_helper s hop _))
    have hnames : (valueNames name type).map (path ++ ·) = (Cell.holes type).map (Cell.text
        { e with
          value := path ++ ident name
          helper := helper s op (elementType type)
          number := n + 1 }) := by
      rw [valueNames, Cell.holes]
      split
      · simp [Cell.text, lengthName, String.append_assoc]
      · rfl
    rw [handles_iff, hnames]
    exact huses
  fresh hempty n := by
    subst hempty
    have hvalue : IsIdent ("" ++ ident name) := String.empty_append ▸ isIdent_ident name
    rw [(h n).declared ⟨hvalue, isIdent_helper s hop _⟩, hnext]
    split
    · exact .of_stems hstems n
    · exact .of_nil rfl

/-- The code for one item of a clause. -/
structure ConvertsItem (s : Surface) (stems : List String) (item : ResultItem)
    (code : Numbered (List Step)) : Prop where
  handles : ∀ n, HandlesItem s item (code.run n).1
  fresh : DeclaresFresh stems code

theorem convertsItem_of_cases {s : Surface} {item : ResultItem} {code : Numbered (List Step)}
    (hlabel : ∀ label, item.label = some label → ∃ steps, code = pure steps ∧ Frames [] steps)
    (hvalue : item.label = none → Converts s stems "" item.name item.type code) :
    ConvertsItem s stems item code := by
  cases h : item.label with
  | some label =>
    obtain ⟨steps, rfl, hframes⟩ := hlabel label h
    refine ⟨fun n => ?_, fun n => .of_nil hframes.declared⟩
    rw [HandlesItem, ResultItem.isLabel, h, if_pos Option.isSome_some]
    exact hframes.uses
  | none =>
    refine ⟨fun n => ?_, (hvalue h).fresh rfl⟩
    rw [HandlesItem, ResultItem.isLabel, h, if_neg (by simp)]
    exact (hvalue h).handles n

/-- The variables that a backend uses of its own. -/
structure Reserved where
  /-- In wrappers. -/
  wrapper : List String
  /-- In accessors. -/
  accessor : List String
  /-- In the message. -/
  send : List String
  /-- Numbered ones where a request is taken apart. -/
  decoding : List String
  /-- Numbered ones where a result is made. -/
  encoding : List String

def Reserved.result (r : Reserved) : Role → List String
  | .send => r.send
  | _ => r.accessor

end NativeInterface.C

namespace NativeInterface

open C

/-! ## The in-process backend -/

namespace Nif
variable {s : Surface} {e : Filling}

/-- The variables of the generator. -/
def reserved : Reserved where
  wrapper := ["env", "argc", "argv"]
  accessor := ["env", "result", "items"]
  send := ["env", "pid", "flags", "message", "items"]
  decoding := ["cell_", "head_", "i_"]
  encoding := ["items_", "i_"]

/-- A place in a tuple, or among the values of a map. -/
def IsSlot (e : Filling) (dst : String) : Prop :=
  dst = "items[" ++ Text.decimal e.index ++ "]" ∨ dst = "values[" ++ Text.decimal e.index ++ "]"

theorem filled_encode_list {element : Ty} (hhelper : e.helper = helper s "make" element) {n : Nat}
    (hnumber : e.number = n + 1) {dst : String} (hdst : IsSlot e dst) :
    Filled e [.value, .length] ["items_" ++ Text.decimal e.number, "i_" ++ Text.decimal e.number]
      ((encode s (.list element) e.value dst).run n).1 := by
  unfold encode
  change Filled _ _ _ (block _ _)
  rw [← hhelper, ← hnumber]
  rcases hdst with rfl | rfl
  all_goals exact filled_of_check rfl

theorem filled_encode_one {type : Ty} (hhelper : e.helper = helper s "make" type) {dst : String}
    (hdst : IsSlot e dst) :
    Filled e [.value] []
      [.line (dst ++ " = " ++ helper s "make" type ++ "(env, " ++ e.value ++ ");")] := by
  rw [← hhelper]
  rcases hdst with rfl | rfl
  all_goals exact filled_of_check rfl

theorem converts_encode {path name dst : String} (hpath : path ∈ valuePaths) (type : Ty) {i : Nat}
    (hdst : IsSlot { index := i } dst) :
    Converts s reserved.encoding path name type (encode s type (path ++ ident name) dst) := by
  have hop : IsIdent "make" := isIdent_of_all (by decide)
  refine converts_of_filled { index := i } hop hpath (by decide) (fun n => by cases type <;> rfl)
    fun n => ?_
  cases type with
  | list element => exact filled_encode_list rfl rfl hdst
  | named leaf => exact filled_encode_one rfl hdst
  | label => exact filled_encode_one rfl hdst

/-- A field of a map that is taken apart, or an argument of a request; with the statement for a term
that does not fit. -/
def IsOrigin (e : Filling) (term onFail : String) : Prop :=
  term = "field" ∧ onFail = "return 0;" ∨
    term = "argv[" ++ Text.decimal e.index ++ "]" ∧
      onFail = "return bridge_raise_badarg(env, " ++ literal e.quoted ++ ");"

-- This code has more parts than the search for instances expects of a class.
set_option synthInstance.maxSize 256 in
theorem filled_decode_list {element : Ty} (hhelper : e.helper = helper s "get" element) {n : Nat}
    (hnumber : e.number = n + 1) {term onFail : String} (h : IsOrigin e term onFail) :
    Filled e [.value, .length]
      ["cell_" ++ Text.decimal e.number, "head_" ++ Text.decimal e.number,
        "i_" ++ Text.decimal e.number]
      ((decode s (.list element) term e.value onFail).run n).1 := by
  unfold decode
  change Filled _ _ _ (block _ _)
  rw [← hhelper, ← hnumber]
  rcases h with ⟨rfl, rfl⟩ | ⟨rfl, rfl⟩
  all_goals exact filled_of_check rfl

theorem filled_decode_one {type : Ty} (hhelper : e.helper = helper s "get" type)
    {term onFail : String} (h : IsOrigin e term onFail) :
    Filled e [.value] []
      (block ("if (!" ++ helper s "get" type ++ "(env, " ++ term ++ ", &" ++ e.value ++ "))")
        [.line onFail]) := by
  rw [← hhelper]
  rcases h with ⟨rfl, rfl⟩ | ⟨rfl, rfl⟩
  all_goals exact filled_of_check rfl

theorem converts_decode {path name term onFail quoted : String} (hpath : path ∈ valuePaths)
    (type : Ty) {i : Nat} (h : IsOrigin { index := i, quoted } term onFail) :
    Converts s reserved.decoding path name type
      (decode s type term (path ++ ident name) onFail) := by
  have hop : IsIdent "get" := isIdent_of_all (by decide)
  refine converts_of_filled { index := i, quoted } hop hpath (by decide)
    (fun n => by cases type <;> rfl) fun n => ?_
  cases type with
  | list element => exact filled_decode_list rfl rfl h
  | named leaf => exact filled_decode_one rfl h
  | label => exact filled_decode_one rfl h

/-! ### Items, fields and arguments -/

theorem filled_label : Filled e [] [] [.line ("items[" ++ Text.decimal e.index ++ "]"
    ++ " = bridge_make_atom(env, " ++ literal e.quoted ++ ");")] :=
  filled_of_check rfl

theorem convertsItem (item : ResultItem) (i : Nat) :
    ConvertsItem s reserved.encoding item (encodeItem s item i) := by
  refine convertsItem_of_cases (fun label h => ?_) fun h => ?_
  · rw [encodeItem, h]
    exact ⟨_, rfl, (@filled_label { index := i, quoted := label }).frames⟩
  · have hslot : IsSlot { index := i } ("items[" ++ Text.decimal i ++ "]") := .inl rfl
    rw [encodeItem, h, ← @String.empty_append (ident item.name)]
    exact converts_encode (by decide) item.type hslot

theorem filled_key : Filled e [] [] [.line ("keys[" ++ Text.decimal e.index
    ++ "] = bridge_make_atom(env, " ++ literal e.quoted ++ ");")] :=
  filled_of_check rfl

theorem handles_encodeMember (m : Member) (slot n : Nat) :
    Handles s "value." m.name m.type ((encodeMember s m slot).run n).1 :=
  (@filled_key { index := slot, quoted := m.name }).frames.uses.append
    ((@converts_encode s "value." m.name _ (by decide) m.type slot (.inr rfl)).handles n)

theorem filled_lookup : Filled e [] []
    (block ("if (!bridge_get_map_value(env, term, " ++ literal e.quoted ++ ", &field))")
      [.line "return 0;"]) :=
  filled_of_check rfl

theorem handles_decodeMember (m : Member) (n : Nat) :
    Handles s "out->" m.name m.type ((decodeMember s m).run n).1 :=
  (@filled_lookup { quoted := m.name }).frames.uses.append
    ((@converts_decode s _ _ _ _ "" (by decide) m.type 0 (.inl ⟨rfl, rfl⟩)).handles n)

theorem converts_decodeParam (p : Param) (i : Nat) :
    Converts s reserved.decoding "" p.name p.type (decodeParam s p i) := by
  have horigin : IsOrigin { index := i, quoted := p.name } ("argv[" ++ Text.decimal i ++ "]")
      ("return bridge_raise_badarg(env, " ++ literal p.name ++ ");") := .inr ⟨rfl, rfl⟩
  rw [decodeParam, ← @String.empty_append (ident p.name)]
  exact converts_decode (by decide) p.type horigin

end Nif

/-! ## The out-of-process backend -/

namespace CNode
variable {s : Surface} {e : Filling}

/-- The variables of the generator. -/
def reserved : Reserved where
  wrapper := ["env", "buf", "index"]
  accessor := ["env", "out"]
  send := ["env", "pid", "flags", "out"]
  decoding := ["i_"]
  encoding := ["i_"]

theorem filled_encode_list {element : Ty} (hhelper : e.helper = helper s "encode" element) {n : Nat}
    (hnumber : e.number = n + 1) :
    Filled e [.value, .length] ["i_" ++ Text.decimal e.number]
      ((encode s (.list element) e.value).run n).1 := by
  unfold encode
  change Filled _ _ _ (_ :: _ ++ _)
  rw [← hhelper, ← hnumber]
  exact filled_of_check rfl

theorem filled_encode_one {type : Ty} (hhelper : e.helper = helper s "encode" type) :
    Filled e [.value] [] [.line (helper s "encode" type ++ "(out, " ++ e.value ++ ");")] := by
  rw [← hhelper]
  exact filled_of_check rfl

theorem converts_encode {path name : String} (hpath : path ∈ valuePaths) (type : Ty) :
    Converts s reserved.encoding path name type (encode s type (path ++ ident name)) := by
  have hop : IsIdent "encode" := isIdent_of_all (by decide)
  refine converts_of_filled {} hop hpath (by decide) (fun n => by cases type <;> rfl) fun n => ?_
  cases type with
  | list element => exact filled_encode_list rfl rfl
  | named leaf => exact filled_encode_one rfl
  | label => exact filled_encode_one rfl

/-- The statement for a term that does not fit. -/
def IsRefusal (e : Filling) (onFail : String) : Prop :=
  onFail = "return 0;" ∨ onFail = "return bridge_reply_badarg(env, " ++ literal e.quoted ++ ");"

theorem filled_decode_list {element : Ty} (hhelper : e.helper = helper s "decode" element) {n : Nat}
    (hnumber : e.number = n + 1) {onFail : String} (h : IsRefusal e onFail) :
    Filled e [.value, .length] ["i_" ++ Text.decimal e.number]
      ((decode s (.list element) e.value onFail).run n).1 := by
  unfold decode
  change Filled _ _ _ (_ ++ _ :: _ ++ _)
  rw [← hhelper, ← hnumber]
  rcases h with rfl | rfl
  all_goals exact filled_of_check rfl

theorem filled_decode_one {type : Ty} (hhelper : e.helper = helper s "decode" type)
    {onFail : String} (h : IsRefusal e onFail) :
    Filled e [.value] []
      (block ("if (!" ++ helper s "decode" type ++ "(buf, index, &" ++ e.value ++ "))")
        [.line onFail]) := by
  rw [← hhelper]
  rcases h with rfl | rfl
  all_goals exact filled_of_check rfl

theorem converts_decode {path name onFail quoted : String} (hpath : path ∈ valuePaths) (type : Ty)
    (h : IsRefusal { quoted } onFail) :
    Converts s reserved.decoding path name type (decode s type (path ++ ident name) onFail) := by
  have hop : IsIdent "decode" := isIdent_of_all (by decide)
  refine converts_of_filled { quoted } hop hpath (by decide) (fun n => by cases type <;> rfl)
    fun n => ?_
  cases type with
  | list element => exact filled_decode_list rfl rfl h
  | named leaf => exact filled_decode_one rfl h
  | label => exact filled_decode_one rfl h

/-! ### Items, fields and arguments -/

theorem filled_atom :
    Filled e [] [] [.line ("bridge_encode_atom(out, " ++ literal e.quoted ++ ");")] :=
  filled_of_check rfl

theorem convertsItem (item : ResultItem) :
    ConvertsItem s reserved.encoding item (encodeItem s item) := by
  refine convertsItem_of_cases (fun label h => ?_) fun h => ?_
  · rw [encodeItem, h]
    exact ⟨_, rfl, (@filled_atom { quoted := label }).frames⟩
  · rw [encodeItem, h, ← @String.empty_append (ident item.name)]
    exact converts_encode (by decide) item.type

theorem handles_encodeMember (m : Member) (n : Nat) :
    Handles s "value." m.name m.type ((encodeMember s m).run n).1 :=
  (@filled_atom { quoted := m.name }).frames.uses.append
    ((@converts_encode s "value." m.name (by decide) m.type).handles n)

theorem filled_key :
    Filled e [] [] [.openBlock ("if (strcmp(key, " ++ literal e.quoted ++ ") == 0)")] :=
  filled_of_check rfl

theorem frames_continue : Frames [] [.line "continue;", .closeBlock ""] := frames_of_check rfl

theorem handles_decodeMember (m : Member) (n : Nat) :
    Handles s "out->" m.name m.type ((decodeMember s m).run n).1 := by
  have hvalue := (@converts_decode s "out->" m.name "return 0;" "" (by decide) m.type
    (.inl rfl)).handles n
  have h := ((@filled_key { quoted := m.name }).frames.uses.append hvalue).append
    frames_continue.uses
  change Handles s _ _ _ (Step.openBlock _
    :: (_ ++ [Step.line "continue;"]) ++ [Step.closeBlock ""])
  rw [List.append_nil, List.append_assoc] at h
  rw [List.cons_append, List.append_assoc]
  exact h

theorem converts_decodeParam (p : Param) :
    Converts s reserved.decoding "" p.name p.type (decodeParam s p) := by
  have hrefusal : IsRefusal { quoted := p.name }
      ("return bridge_reply_badarg(env, " ++ literal p.name ++ ");") := .inr rfl
  rw [decodeParam, ← @String.empty_append (ident p.name)]
  exact converts_decode (by decide) p.type hrefusal

end CNode
end NativeInterface
