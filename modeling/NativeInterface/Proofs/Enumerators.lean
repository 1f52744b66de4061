import NativeInterface.Proofs.CodeWords
import NativeInterface.Proofs.Literals
import NativeInterface.Proofs.Resolution

/-!
# Constants of enums

A constant is made of the name of an enum and that of a variant, with an underscore between them and
in capitals. `C.Distinguished` says which names keep the constants of a surface apart
(`C.differentConstants_iff`). For such names a header lists no constant twice, and the conversions
of an enum take each constant to its variant and each variant to its constant.
-/

namespace NativeInterface.C

/-! ## Constants -/

/-- What a name contributes to a constant. -/
def constantPart (name : String) : List Char := (ident name).toList.map Char.toUpper

theorem toList_enumConstant (name variant : String) :
    (enumConstant name variant).toList = constantPart name ++ '_' :: constantPart variant := by
  have hmark : '_'.toUpper = '_' := rfl
  rw [enumConstant, upper, String.toList_ofList]
  simp [constantPart, hmark]

/-- Two texts with an underscore in them are equal if they are cut at the same one, or if one is cut
at an underscore of the other's first or second part. -/
theorem append_underscore_eq_iff {a b x y : List Char} :
    a ++ '_' :: x = b ++ '_' :: y ↔
      (a = b ∧ x = y) ∨ (∃ t, b = a ++ '_' :: t ∧ x = t ++ '_' :: y) ∨
        ∃ t, a = b ++ '_' :: t ∧ y = t ++ '_' :: x := by
  constructor
  · intro h
    rcases List.append_eq_append_iff.mp h with ⟨t, rfl, ht⟩ | ⟨t, rfl, ht⟩
    · cases t with
      | nil => exact .inl ⟨(List.append_nil a).symm, (List.cons.inj ht).2⟩
      | cons c t =>
        obtain ⟨rfl, hx⟩ := List.cons.inj ht
        exact .inr (.inl ⟨t, rfl, hx⟩)
    · cases t with
      | nil => exact .inl ⟨List.append_nil b, (List.cons.inj ht).2.symm⟩
      | cons c t =>
        obtain ⟨rfl, hy⟩ := List.cons.inj ht
        exact .inr (.inr ⟨t, rfl, hy⟩)
  · rintro (⟨rfl, rfl⟩ | ⟨t, rfl, rfl⟩ | ⟨t, rfl, rfl⟩)
    · rfl
    · rw [List.append_assoc, List.cons_append]
    · rw [List.append_assoc, List.cons_append]

/-- No two variants of a surface have the same constant. -/
def DifferentConstants (s : Surface) : Prop :=
  ∀ e ∈ s.enums, ∀ e' ∈ s.enums, ∀ v ∈ e.variants, ∀ w ∈ e'.variants,
    (e.name, v) ≠ (e'.name, w) → enumConstant e.name v ≠ enumConstant e'.name w

/-- Names that keep constants apart: C identifiers in capitals tell the variants of an enum apart,
and those of enums whose names they do not tell apart; and where the name of one enum is that of
another with some rest behind an underscore, no variant of the other is that rest, an underscore and
a variant of the first. -/
structure Distinguished (s : Surface) : Prop where
  variants : ∀ e ∈ s.enums, ∀ v ∈ e.variants, ∀ w ∈ e.variants,
    constantPart v = constantPart w → v = w
  names : ∀ e ∈ s.enums, ∀ e' ∈ s.enums, e.name ≠ e'.name →
    constantPart e.name = constantPart e'.name →
    ∀ v ∈ e.variants, ∀ w ∈ e'.variants, constantPart v ≠ constantPart w
  rests : ∀ e ∈ s.enums, ∀ e' ∈ s.enums, ∀ rest,
    constantPart e'.name = constantPart e.name ++ '_' :: rest →
    ∀ v ∈ e.variants, ∀ w ∈ e'.variants, constantPart v ≠ rest ++ '_' :: constantPart w

section
variable {s : Surface}

theorem Distinguished.differentConstants (h : Distinguished s)
    (hkeys : (s.enums.map (·.name)).Nodup) : DifferentConstants s := by
  intro e he e' he' v hv w hw hne heq
  have hlists := congrArg String.toList heq
  rw [toList_enumConstant, toList_enumConstant] at hlists
  rcases append_underscore_eq_iff.mp hlists with ⟨hname, hvariant⟩ | ⟨t, hname, hvariant⟩ |
    ⟨t, hname, hvariant⟩
  · by_cases hsame : e.name = e'.name
    · obtain rfl := List.inj_on_of_nodup_map hkeys he he' hsame
      exact hne (Prod.ext rfl (h.variants e he v hv w hw hvariant))
    · exact h.names e he e' he' hsame hname v hv w hw hvariant
  · exact h.rests e he e' he' t hname v hv w hw hvariant
  · exact h.rests e' he' e he t hname w hw v hv hvariant

theorem DifferentConstants.distinguished (h : DifferentConstants s) : Distinguished s := by
  have hclash {e e' : Enum} (he : e ∈ s.enums) (he' : e' ∈ s.enums) {v w : String}
      (hv : v ∈ e.variants) (hw : w ∈ e'.variants)
      (hlists : constantPart e.name ++ '_' :: constantPart v =
        constantPart e'.name ++ '_' :: constantPart w) : (e.name, v) = (e'.name, w) := by
    by_contra hne
    refine h e he e' he' v hv w hw hne (String.toList_inj.mp ?_)
    rw [toList_enumConstant, toList_enumConstant, hlists]
  refine ⟨fun e he v hv w hw heq => ?_, fun e he e' he' hne hname v hv w hw heq => ?_,
    fun e he e' he' rest hname v hv w hw heq => ?_⟩
  · exact (Prod.mk.inj (hclash he he hv hw (by rw [heq]))).2
  · exact hne (Prod.mk.inj (hclash he he' hv hw (by rw [hname, heq]))).1
  · have hpair := hclash he he' hv hw (append_underscore_eq_iff.mpr (.inr (.inl ⟨_, hname, heq⟩)))
    rw [(Prod.mk.inj hpair).1] at hname
    have hlength := congrArg List.length hname
    simp at hlength

/-- The names of a surface keep its constants apart exactly if they are distinguished. -/
theorem differentConstants_iff (hkeys : (s.enums.map (·.name)).Nodup) :
    DifferentConstants s ↔ Distinguished s :=
  ⟨DifferentConstants.distinguished, fun h => h.differentConstants hkeys⟩

end

/-! ## Headers -/

/-- The lines of an item that defines an enum. -/
def Item.enumerators : Item → List String
  | .group head body _ =>
    if "typedef enum ".toList.isPrefixOf head.toList then body.map Step.code else []
  | _ => []

namespace Item
variable (role : Role) (signature : Signature) (text : String)

@[simp] theorem enumerators_raw : (raw text).enumerators = [] := rfl

@[simp] theorem enumerators_blank : blank.enumerators = [] := rfl

@[simp] theorem enumerators_prototype : (prototype role signature).enumerators = [] := rfl

end Item

theorem enumerators_enumItems (e : Enum) :
    (enumItems e).flatMap Item.enumerators =
      e.variants.map fun v => enumConstant e.name v ++ "," := by
  simp [enumItems, Item.enumerators, Function.comp_def]

theorem enumerators_structItems (s : Surface) (d : Struct) :
    (structItems s d).flatMap Item.enumerators = [] := by
  simp [structItems, Item.enumerators]

theorem enumerators_typeItems (s : Surface) :
    (typeItems s).flatMap Item.enumerators =
      s.enums.flatMap fun e => e.variants.map fun v => enumConstant e.name v ++ "," := by
  rw [typeItems]
  split
  · simp [List.flatMap_assoc, enumerators_enumItems]
  · simp [List.flatMap_assoc, enumerators_enumItems, enumerators_structItems, structName,
      List.flatMap_map]

theorem enumerators_titled (title : String) {items : List Item}
    (h : ∀ i ∈ items, i.enumerators = []) : (titled title items).flatMap Item.enumerators = [] := by
  rw [titled]
  split
  · rfl
  · simpa using h

theorem enumerators_prototypeItems (flavor : Flavor) (s : Surface) :
    (prototypeItems flavor s).flatMap Item.enumerators = [] := by
  have hfunctions : (functionItems flavor.returns s).flatMap Item.enumerators = [] := by
    rw [functionItems]
    split
    · rfl
    · simp [implPrototypes, accessorPrototypes, List.flatMap_assoc, List.flatMap_map]
  simp only [prototypeItems, List.flatMap_append, hfunctions]
  rw [enumerators_titled _ (by simp), enumerators_titled _ (by simp),
    enumerators_titled _ (by simp)]
  rfl

/-- A header lists the constants of all enums. -/
theorem enumerators_headerItems (flavor : Flavor) (name : String) (s : Surface) :
    (headerItems flavor name s).flatMap Item.enumerators =
      s.enums.flatMap fun e => e.variants.map fun v => enumConstant e.name v ++ "," := by
  have hstate : (stateItems s).flatMap Item.enumerators = [] := by
    rw [stateItems]
    split
    · rfl
    · rfl
  simp [headerItems, banner, hstate, enumerators_typeItems, enumerators_prototypeItems]

theorem nodup_enumerators {s : Surface} (hkeys : (s.enums.map (·.name)).Nodup)
    (h : DifferentConstants s) (hvariants : ∀ e ∈ s.enums, e.variants.Nodup) :
    (s.enums.flatMap fun e => e.variants.map fun v => enumConstant e.name v ++ ",").Nodup := by
  rw [List.nodup_flatMap]
  constructor
  · intro e he
    refine (hvariants e he).map_on fun v hv w hw heq => ?_
    by_contra hne
    exact h e he e he v hv w hw (fun hpair => hne (Prod.mk.inj hpair).2)
      ((String.append_left_inj ",").mp heq)
  · rw [List.Nodup, List.pairwise_map] at hkeys
    refine hkeys.imp_of_mem fun {e e'} he he' hne => ?_
    intro text hmem hmem'
    obtain ⟨v, hv, rfl⟩ := List.mem_map.mp hmem
    obtain ⟨w, hw, heq⟩ := List.mem_map.mp hmem'
    exact h e' he' e he w hw v hv (fun hpair => hne (Prod.mk.inj hpair).1.symm)
      ((String.append_left_inj ",").mp heq)

/-! ## Conversions -/

/-- The steps of the first block under this head. -/
def blockUnder? (head : String) : List Step → Option (List Step)
  | [] => none
  | .openBlock text :: steps =>
    if text = head then some (steps.takeWhile (· ≠ .closeBlock "")) else blockUnder? head steps
  | _ :: steps => blockUnder? head steps

section
variable {head : String} {texts : List String} {steps : List Step}

theorem blockUnder?_lines :
    blockUnder? head (texts.map .line ++ steps) = blockUnder? head steps := by
  induction texts with
  | nil => rfl
  | cons text texts ih => exact ih

theorem blockUnder?_block :
    blockUnder? head (block head (texts.map .line) ++ steps) = some (texts.map .line) := by
  have hlines : ∀ step ∈ texts.map Step.line, decide (step ≠ .closeBlock "") := by simp
  rw [block, blockWith, List.append_assoc, List.cons_append, blockUnder?, if_pos rfl,
    List.takeWhile_append_of_pos hlines]
  simp

theorem blockUnder?_block_of_ne {text : String} (h : text ≠ head) (texts : List String) :
    blockUnder? head (block text (texts.map .line) ++ steps) = blockUnder? head steps := by
  rw [block, blockWith, List.append_assoc, List.cons_append, blockUnder?, if_neg h,
    blockUnder?_lines]
  rfl

/-- In a chain of blocks, the first one under a head decides. -/
theorem blockUnder?_chain (heads : String → String) (bodies : String → List String)
    {xs : List String} {x : String} (hx : x ∈ xs)
    (h : ∀ y ∈ xs, heads y = heads x → bodies y = bodies x) :
    blockUnder? (heads x) ((xs.flatMap fun y => block (heads y) ((bodies y).map .line)) ++ steps) =
      some ((bodies x).map .line) := by
  induction xs with
  | nil => cases hx
  | cons y ys ih =>
    rw [List.flatMap_cons, List.append_assoc]
    by_cases hhead : heads y = heads x
    · rw [hhead, blockUnder?_block, h y List.mem_cons_self hhead]
    · rw [blockUnder?_block_of_ne hhead (bodies y)]
      have hne : x ≠ y := by
        rintro rfl
        exact hhead rfl
      exact ih ((List.mem_cons.mp hx).resolve_left hne)
        fun z hz => h z (List.mem_cons_of_mem _ hz)

end

theorem eq_of_framed {front back a b : String} (h : front ++ a ++ back = front ++ b ++ back) :
    a = b :=
  (String.append_right_inj front).mp ((String.append_left_inj back).mp h)

end NativeInterface.C

namespace NativeInterface
open C

variable {s : Surface} {e : Enum}

/-! ### The in-process backend -/

namespace Nif

/-- A source has two functions for an enum. One answers each constant with the symbol of its
variant, the other each symbol with the constant. -/
def ConvertsEnum (source : List Item) (e : Enum) : Prop :=
  ∃ make get, .definition (.conversion e.name) (makeSignature e.name) make ∈ source ∧
    .definition (.conversion e.name) (getSignature e.name) get ∈ source ∧
    ∀ v ∈ e.variants,
      blockUnder? ("if (value == " ++ enumConstant e.name v ++ ")") make =
        some [.line ("return bridge_make_atom(env, " ++ literal v ++ ");")] ∧
      blockUnder? ("if (bridge_is_atom(env, term, " ++ literal v ++ "))") get =
        some [.line ("*out = " ++ enumConstant e.name v ++ ";"), .line "return 1;"]

theorem enumItems_subset (name : String) (he : e ∈ s.enums) : enumItems e ⊆ sourceItems name s := by
  intro item hitem
  have hmem : item ∈ s.enums.flatMap enumItems := List.mem_flatMap.mpr ⟨e, he, hitem⟩
  simp only [sourceItems, List.mem_append, hmem, true_or, or_true]

theorem convertsEnum (name : String) (he : e ∈ s.enums)
    (h : ∀ v ∈ e.variants, ∀ w ∈ e.variants,
      enumConstant e.name w = enumConstant e.name v → w = v) :
    ConvertsEnum (sourceItems name s) e := by
  have hsource := enumItems_subset name he
  refine ⟨_, _, hsource List.mem_cons_self, hsource (.tail _ (.tail _ (.head _))),
    fun v hv => ⟨?_, ?_⟩⟩
  · refine blockUnder?_chain (fun v => "if (value == " ++ enumConstant e.name v ++ ")")
      (fun v => ["return bridge_make_atom(env, " ++ literal v ++ ");"]) hv ?_
    intro w hw heq
    rw [h v hv w hw (eq_of_framed heq)]
  · refine blockUnder?_chain (fun v => "if (bridge_is_atom(env, term, " ++ literal v ++ "))")
      (fun v => ["*out = " ++ enumConstant e.name v ++ ";", "return 1;"]) hv ?_
    intro w hw heq
    rw [literal_inj (eq_of_framed heq)]

end Nif

/-! ### The out-of-process backend -/

namespace CNode

/-- A source has two functions for an enum. One writes for each constant the symbol of its variant,
the other reads for each symbol the constant. -/
def ConvertsEnum (source : List Item) (e : Enum) : Prop :=
  ∃ encode decode, .definition (.conversion e.name) (encodeSignature e.name) encode ∈ source ∧
    .definition (.conversion e.name) (decodeSignature e.name) decode ∈ source ∧
    ∀ v ∈ e.variants,
      blockUnder? ("if (value == " ++ enumConstant e.name v ++ ")") encode =
        some [.line ("bridge_encode_atom(out, " ++ literal v ++ ");"), .line "return;"] ∧
      blockUnder? ("if (strcmp(atom, " ++ literal v ++ ") == 0)") decode =
        some [.line ("*out = " ++ enumConstant e.name v ++ ";"), .line "return 1;"]

theorem enumItems_subset (name : String) (he : e ∈ s.enums) : enumItems e ⊆ sourceItems name s := by
  intro item hitem
  have hmem : item ∈ s.enums.flatMap enumItems := List.mem_flatMap.mpr ⟨e, he, hitem⟩
  simp only [sourceItems, List.mem_append, hmem, true_or, or_true]

theorem convertsEnum (name : String) (he : e ∈ s.enums)
    (h : ∀ v ∈ e.variants, ∀ w ∈ e.variants,
      enumConstant e.name w = enumConstant e.name v → w = v) :
    ConvertsEnum (sourceItems name s) e := by
  have hsource := enumItems_subset name he
  refine ⟨_, _, hsource List.mem_cons_self, hsource (.tail _ (.tail _ (.head _))),
    fun v hv => ⟨?_, ?_⟩⟩
  · refine blockUnder?_chain (fun v => "if (value == " ++ enumConstant e.name v ++ ")")
      (fun v => ["bridge_encode_atom(out, " ++ literal v ++ ");", "return;"]) hv ?_
    intro w hw heq
    rw [h v hv w hw (eq_of_framed heq)]
  · -- the atom is read first, in a block of its own
    have hread : "if (!bridge_decode_atom(buf, index, &atom))" ≠
        "if (strcmp(atom, " ++ literal v ++ ") == 0)" := by
      intro heq
      have hlists := congrArg String.toList heq
      simp at hlists
    rw [List.append_assoc]
    refine (blockUnder?_block_of_ne hread ["return 0;"]).trans ?_
    refine blockUnder?_chain (fun v => "if (strcmp(atom, " ++ literal v ++ ") == 0)")
      (fun v => ["*out = " ++ enumConstant e.name v ++ ";", "return 1;"]) hv ?_
    intro w hw heq
    rw [literal_inj (eq_of_framed heq)]

end CNode

/-! ## Compiled files -/

namespace C

/-- **Constants of a compiled file.** They are different for different variants exactly if the names
are distinguished. Then a header lists no constant twice, unless an enum lists a variant twice, and
the functions of both backends that convert an enum take each constant to its variant and back. -/
theorem enumerators_of_compile {file : SourceFile} (h : file.compile = .ok s) :
    (DifferentConstants s ↔ Distinguished s) ∧
      (Distinguished s → ∀ name,
        ((∀ e ∈ s.enums, e.variants.Nodup) → ∀ flavor,
          ((headerItems flavor name s).flatMap Item.enumerators).Nodup) ∧
        ∀ e ∈ s.enums, Nif.ConvertsEnum (Nif.sourceItems name s) e ∧
          CNode.ConvertsEnum (CNode.sourceItems name s) e) := by
  obtain ⟨b, rfl, hkeys, -⟩ := Surface.exists_builder (SourceFile.build_of_compile h).2
  have hnames : (b.finish.enums.map (·.name)).Nodup := (List.nodup_append.mp hkeys.aliases).2.1
  refine ⟨differentConstants_iff hnames,
    fun hs name => ⟨fun hvariants flavor => ?_, fun e he => ?_⟩⟩
  · rw [enumerators_headerItems]
    exact nodup_enumerators hnames (hs.differentConstants hnames) hvariants
  · have hvariant : ∀ v ∈ e.variants, ∀ w ∈ e.variants,
        enumConstant e.name w = enumConstant e.name v → w = v := by
      intro v hv w hw heq
      by_contra hne
      exact hs.differentConstants hnames e he e he w hw v hv
        (fun hpair => hne (Prod.mk.inj hpair).2) heq
    exact ⟨Nif.convertsEnum name he hvariant, CNode.convertsEnum name he hvariant⟩

/-- An enum whose name continues that of another, where the other has a variant that starts like the
rest but goes on without an underscore. -/
theorem enumerators_of_compile_continued :
    let file : SourceFile := ⟨"a.bspec",
      "type color :: :red | :kinda?\ntype color_kind :: :a? | :warm"⟩
    let color : Enum := ⟨"color", ["red", "kinda?"]⟩
    let kind : Enum := ⟨"color_kind", ["a?", "warm"]⟩
    let s : Surface := { moduleName := "a", enums := [color, kind] }
    file.compile = .ok s ∧ Distinguished s ∧ enumConstant "color" "kinda?" = "COLOR_KINDA_" ∧
      enumConstant "color_kind" "a?" = "COLOR_KIND_A_" ∧ DifferentConstants s ∧
      ((headerItems Nif.flavor "a" s).flatMap Item.enumerators).Nodup ∧
      Nif.ConvertsEnum (Nif.sourceItems "a" s) color ∧
      CNode.ConvertsEnum (CNode.sourceItems "a" s) kind := by
  intro file color kind s
  have hcompile : file.compile = .ok s := by decide +kernel
  have hrests : ∀ e ∈ s.enums, ∀ e' ∈ s.enums, ∀ rest ∈ (constantPart e'.name).tails,
      constantPart e'.name = constantPart e.name ++ '_' :: rest →
      ∀ v ∈ e.variants, ∀ w ∈ e'.variants, constantPart v ≠ rest ++ '_' :: constantPart w := by
    decide +kernel
  have hs : Distinguished s := by
    refine ⟨by decide +kernel, by decide +kernel, fun e he e' he' rest hrest => ?_⟩
    refine hrests e he e' he' rest ((List.mem_tails _ _).mpr ?_) hrest
    rw [hrest]
    exact (List.suffix_cons _ _).trans (List.suffix_append _ _)
  obtain ⟨hdifferent, hfiles⟩ := enumerators_of_compile hcompile
  obtain ⟨hheader, hsources⟩ := hfiles hs "a"
  exact ⟨hcompile, hs, by decide +kernel, by decide +kernel, hdifferent.mpr hs,
    hheader (by decide +kernel) Nif.flavor, (hsources color (by simp [s])).1,
    (hsources kind (by simp [s])).2⟩

/-- The constants of the enums of a text that compiles. -/
def constantsOf (text : String) : Option (List (List String)) :=
  (SourceFile.mk "a.bspec" text).compile.toOption.map fun s =>
    s.enums.map fun e => e.variants.map (enumConstant e.name)

/-- Each condition on the names is needed: variants that differ in characters that C does not have,
or in case only; enums whose names differ so; and an underscore that belongs to the name of one enum
and to a variant of another. -/
theorem enumerators_collide :
    constantsOf "type a :: :x? | :x!" = some [["A_X_", "A_X_"]] ∧
    constantsOf "type a :: :x | :X" = some [["A_X", "A_X"]] ∧
    constantsOf "type a? :: :x\ntype a! :: :x" = some [["A__X"], ["A__X"]] ∧
    constantsOf "type a :: :b_c\ntype a_b :: :c" = some [["A_B_C"], ["A_B_C"]] := by
  refine ⟨?_, ?_, ?_, ?_⟩ <;> decide +kernel

end C
end NativeInterface
