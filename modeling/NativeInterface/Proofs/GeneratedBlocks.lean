import NativeInterface.Proofs.Blocks
import NativeInterface.Proofs.DeclaredNames
import NativeInterface.Proofs.Sections

/-!
# Blocks of generated code

How many blocks a backend opens depends on the shape of a surface: there is one for each variant of
an enum, and a list is taken apart in more of them than a single value. The code for each shape
closes what it opens, so every item of a header and of a source does. For every surface, both
backends lay their files out by blocks (`C.blocks_balanced`).

A generated line starts with no blank of its own, unless a name is missing: a declaration has a
blank between its type and its name, and an empty type leaves it in front. `Surface.Named` says
which names have to be given.
-/

namespace NativeInterface

/-- The state, the arguments and the leaves of types have names. -/
structure Surface.Named (s : Surface) : Prop where
  state : s.stateType ≠ some ""
  params : ∀ f ∈ s.functions, ∀ p ∈ f.params, p.name ≠ "" ∧ p.type.leaf? ≠ some ""
  members : ∀ d ∈ s.structs, ∀ m ∈ d.members, m.type.leaf? ≠ some ""

namespace C
variable {named : Prop}

/-! ## Names -/

section names
variable {named : Prop}

theorem isLine_ident {name : String} (h : name ≠ "") : IsLine named (ident name) := by
  have hchars := isIdent_ident name
  have hne : ident name ≠ "" := by
    intro hempty
    have hlist := congrArg String.toList hempty
    rw [toList_ident] at hlist
    cases hname : name.toList with
    | nil => exact h (String.toList_eq_nil_iff.mp hname)
    | cons c cs =>
      rw [hname, identChars, List.map_cons] at hlist
      dsimp only at hlist
      split at hlist
      · cases hlist
      · cases hlist
  refine ⟨⟨hne, fun _ hblank => ?_⟩, hchars.feedless⟩
  cases hchars _ (List.mem_of_head? hblank)

/-- What comes before the letters is the capital of nothing else. -/
theorem toUpper_ne {c d : Char} (hc : c ≠ d) (hd : d.toNat < 65) : c.toUpper ≠ d := by
  delta Char.toUpper
  split
  · rename_i hlower
    rintro rfl
    have hfirst : 97 ≤ c.val.toNat := UInt32.le_iff_toNat_le.mp hlower.1
    have hlast : c.val.toNat ≤ 122 := UInt32.le_iff_toNat_le.mp hlower.2
    change (c.val + ('A'.val - 'a'.val)).toNat < 65 at hd
    rw [UInt32.toNat_add] at hd
    -- the distance between the cases is negative, and wraps
    change (c.val.toNat + 4294967264) % 4294967296 < 65 at hd
    omega
  · exact hc

theorem notMem_upper {t : String} (h : IsIdent t) {d : Char} (hd : ¬isIdentChar d)
    (hd' : d.toNat < 65) : d ∉ (upper t).toList := by
  rw [upper, String.toList_ofList]
  intro hmem
  obtain ⟨c, hc, hupper⟩ := List.mem_map.mp hmem
  have hne : c ≠ d := by
    rintro rfl
    exact hd (h c hc)
  exact toUpper_ne hne hd' hupper

theorem notMem_enumConstant {d : Char} (hd : ¬isIdentChar d) (hd' : d.toNat < 65)
    (name variant : String) : d ∉ (enumConstant name variant).toList := by
  have hmark : IsIdent "_" := isIdent_of_all (by decide)
  exact notMem_upper (((isIdent_ident name).append hmark).append (isIdent_ident variant)) hd hd'

theorem feedless_enumConstant (name variant : String) : Feedless (enumConstant name variant) :=
  notMem_enumConstant (by decide) (by decide) name variant

instance (name variant : String) : Feeds (enumConstant name variant) [] :=
  (feedless_enumConstant name variant).feeds

theorem isLine_enumConstant (name variant : String) : IsLine named (enumConstant name variant) := by
  have hne : enumConstant name variant ≠ "" := by
    rw [Ne, ← String.toList_eq_nil_iff, enumConstant, upper]
    simp
  have hblank := notMem_enumConstant (d := ' ') (by decide) (by decide) name variant
  exact ⟨⟨hne, fun _ hfront => hblank (List.mem_of_head? hfront)⟩,
    feedless_enumConstant name variant⟩

theorem feedless_includeGuard (name backend : String) : Feedless (includeGuard name backend) := by
  have hmark : IsIdent "BRIDGESPEC_" ∧ IsIdent "_" ∧ IsIdent "_H" :=
    ⟨isIdent_of_all (by decide), isIdent_of_all (by decide), isIdent_of_all (by decide)⟩
  have hguard := (((hmark.1.append (isIdent_ident name)).append hmark.2.1).append
    (isIdent_ident backend)).append hmark.2.2
  exact notMem_upper hguard (by decide) (by decide)

end names

/-! ## Declarations -/

section declarations
variable {s : Surface} {name : String} {type : Ty}

theorem feedless_valueDecls : ∀ decl ∈ valueDecls s name type, Feedless decl := by
  intro decl hdecl
  exact .of_chars (isDeclChar_valueDecls s name type decl hdecl) (by decide)

theorem starts_typeText {named : Prop} (hstate : s.stateType ≠ some "")
    (hleaf : type.leaf? ≠ some "") : Starts named (typeText s type) := by
  have hident {name : String} (h : some name ≠ some "") : Starts named (ident name) :=
    (isLine_ident fun hempty => h (congrArg some hempty)).starts
  have hprimitive (p : Primitive) : Starts named (primitiveType s p) := by
    cases p with
    | state =>
      rw [primitiveType, stateType]
      split
      · rename_i name hname
        exact (hident (hname ▸ hstate)).append " *"
      · exact .of_check (t := "void *") rfl
    | _ => simp [primitiveType, Starts]
  cases type with
  | named name =>
    have hname : Starts named (ident name) := hident hleaf
    rw [typeText]
    rcases classify_cases s name with ⟨p, hclass⟩ | hclass | hclass | hclass
    · rw [hclass]
      exact hprimitive p
    all_goals
      rw [hclass]
      exact hname
  | list | label => simp [typeText, Starts]

theorem starts_valueDecls {named : Prop} (hstate : s.stateType ≠ some "")
    (hleaf : type.leaf? ≠ some "") : ∀ decl ∈ valueDecls s name type, Starts named decl := by
  have hdeclare {type : String} (h : Starts named type) (name : String) :
      Starts named (declare type name) := by
    rw [declare]
    split
    · exact h.append name
    · exact (h.append " ").append name
  have hpointer {type : String} (h : Starts named type) : Starts named (pointerTo type) := by
    rw [pointerTo]
    split
    · exact h.append "*"
    · exact h.append " *"
  cases type with
  | list element =>
    have helement : Starts named (typeText s element) := starts_typeText hstate hleaf
    exact List.forall_mem_cons.mpr ⟨hdeclare (hpointer helement) _,
      List.forall_mem_singleton.mpr (hdeclare (.of_check (t := "unsigned int") rfl) _)⟩
  | named | label => exact List.forall_mem_singleton.mpr (hdeclare (starts_typeText hstate hleaf) _)

/-- The blank between a type and a name comes first if the type has the empty name. -/
example : valueDecls { moduleName := "M" } "x" (.named "") = [" x"] := by decide

/-- A declaration and what ends it. -/
theorem isLine_valueDecls (hleaf : s.Named → type.leaf? ≠ some "") {tail : String} (hne : tail ≠ "")
    (htail : Feedless tail) :
    ∀ decl ∈ valueDecls s name type, IsLine s.Named (decl ++ tail) := by
  intro decl hdecl
  have hstarts (h : s.Named) : Starts s.Named decl :=
    starts_valueDecls h.state (hleaf h) decl hdecl
  exact ⟨.of_named hstarts hne, (feedless_valueDecls decl hdecl).append htail⟩

theorem isLine_valueLocals (hleaf : s.Named → type.leaf? ≠ some "") :
    ∀ t ∈ valueLocals s name type, IsLine s.Named t := by
  intro t ht
  obtain ⟨decl, hdecl, rfl⟩ := List.mem_map.mp ht
  have hvalue : Feedless (if decl.toList.contains '*' then "NULL" else "\x7b0\x7d") := by
    split
    · exact .of_check rfl
    · exact .of_check rfl
  have hfront : IsLine s.Named (decl ++ " = ") :=
    isLine_valueDecls hleaf (by decide) (.of_check rfl) decl hdecl
  exact (hfront.append hvalue).append (.of_check rfl)

end declarations

/-! ## Functions of both backends -/

section functions
variable {named : Prop} {s : Surface}

theorem feedless_clauseDecls (c : Clause) : ∀ decl ∈ clauseDecls s c, Feedless decl := by
  intro decl hdecl
  obtain ⟨v, -, hdecl⟩ := List.mem_flatMap.mp hdecl
  exact feedless_valueDecls decl hdecl

theorem isLine_accessorSignature {returns : String} (hreturns : IsLine True returns)
    (f : NativeFunction) (c : Clause) : IsLine True (accessorSignature returns s f c).text := by
  have hname : IsIdent (accessorName s f c) := by
    rw [accessorName]
    split
    · exact isIdent_ident _
    · exact isIdent_ident _
  have := hreturns.starts.toFront
  have := hreturns.feedless.feeds
  have := hname.feedless.feeds
  have := feedsAll_of_feedless (feedless_clauseDecls (s := s) c)
  unfold accessorSignature
  exact .of_check rfl

theorem isLine_sendSignature (c : Clause) : IsLine True (sendSignature s c).text := by
  have := feedsAll_of_feedless (feedless_clauseDecls (s := s) c)
  unfold sendSignature
  exact .of_check rfl

theorem isLine_implSignature {returns : String} (hreturns : IsLine True returns)
    (f : NativeFunction) : IsLine True (implSignature returns s f).text := by
  have hdecls : ∀ decl ∈ paramDecls s f.params, Feedless decl := by
    intro decl hdecl
    obtain ⟨p, -, hdecl⟩ := List.mem_flatMap.mp hdecl
    exact feedless_valueDecls decl hdecl
  have := hreturns.starts.toFront
  have := hreturns.feedless.feeds
  have := (isIdent_implName s f).feedless.feeds
  have := feedsAll_of_feedless hdecls
  unfold implSignature
  exact .of_check rfl

theorem isLine_callbackSignature (c : Callback) : IsLine True (callbackSignature c).text := by
  unfold callbackSignature
  cases c.hook with
  | _ => exact .of_check rfl

theorem isLine_callText (f : NativeFunction) : IsLine named (callText s f) := by
  have hvalues : ∀ name ∈ f.params.flatMap fun p => valueNames p.name p.type, Feedless name := by
    intro name hname
    obtain ⟨p, -, hname⟩ := List.mem_flatMap.mp hname
    exact (isIdent_valueNames p.name p.type name hname).feedless
  have := (isIdent_implName s f).feedless.feeds
  have := feedsAll_of_feedless hvalues
  unfold callText callArguments
  exact .of_check rfl

end functions

/-! ## Headers -/

theorem neat_enumItems (e : Enum) : NeatItems named (enumItems e) := by
  have hhead : IsLine True ("typedef enum " ++ ident e.name ++ "_t") := .of_check rfl
  have hbody : Neat named (e.variants.map fun v => .line (enumConstant e.name v ++ ",")) :=
    .map_line fun v _ => (isLine_enumConstant e.name v).append (.of_check rfl)
  have htail : IsPlain ("\x7d" ++ (" " ++ ident e.name ++ ";")) :=
    String.append_assoc .. ▸ .append (.of_check rfl) (.of_check rfl) (by decide)
  exact .cons ⟨hhead, hbody, htail⟩ (.blank .nil)

theorem neat_structItems {s : Surface} {d : Struct} (hd : d ∈ s.structs) :
    NeatItems s.Named (structItems s d) := by
  have hhead : IsLine True ("struct " ++ ident d.name ++ "_t") := .of_check rfl
  have hfield : ∀ decl ∈ d.members.flatMap fun m => valueDecls s m.name m.type,
      IsLine s.Named (decl ++ ";") := by
    intro decl hdecl
    obtain ⟨m, hm, hdecl⟩ := List.mem_flatMap.mp hdecl
    exact isLine_valueDecls (fun h => h.members d hd m hm) (by decide) (.of_check rfl) decl hdecl
  have htail : IsPlain ("\x7d" ++ ";") := .append (.of_check rfl) (.of_check rfl) (by decide)
  exact .cons ⟨hhead, .map_line hfield, htail⟩ (.blank .nil)

theorem neat_typeItems (s : Surface) : NeatItems s.Named (typeItems s) := by
  have henums : NeatItems s.Named (s.enums.flatMap enumItems) :=
    .flatMap fun e _ => neat_enumItems e
  have hforward : NeatItems s.Named (s.structs.map structName) := by
    refine .map fun d _ => ?_
    have hline : IsPlain ("typedef struct " ++ ident d.name ++ "_t " ++ ident d.name ++ ";") :=
      .append (.of_check rfl) (.of_check rfl) (by decide)
    exact hline
  have hstructs : NeatItems s.Named (s.structs.flatMap (structItems s)) :=
    .flatMap fun d hd => neat_structItems hd
  refine .append henums ?_
  -- structs are declared ahead of their definitions, if there are any
  split
  · exact .nil
  · exact .append hforward (.blank hstructs)

theorem isPlain_title {title : String} (h : Feedless title) :
    IsPlain ("/* " ++ title ++ " */") := by
  have := h.feeds
  exact .append (.of_check rfl) (.of_check rfl) (by decide)

theorem neat_titled {title : String} (htitle : Feedless title) {items : List Item}
    (h : NeatItems named items) : NeatItems named (titled title items) := by
  rw [titled]
  split
  · exact .nil
  · exact .append (.cons (isPlain_title htitle) h) (.blank .nil)

/-- What a flavor adds to a header makes lines. -/
structure Flavor.Lines (flavor : Flavor) : Prop where
  backend : Feedless flavor.backend
  runtimeHeader : Feedless flavor.runtimeHeader
  returns : IsLine True flavor.returns
  entryPoints : ∀ e ∈ flavor.entryPoints, IsLine True e.text

theorem neat_functionItems {returns : String} (hreturns : IsLine True returns) (s : Surface) :
    NeatItems named (functionItems returns s) := by
  have himpls : NeatItems named (implPrototypes returns s) :=
    .map fun f _ => (isLine_implSignature hreturns f).feedless
  have haccessors : NeatItems named (accessorPrototypes returns s) :=
    .flatMap fun f _ => .map fun c _ => (isLine_accessorSignature hreturns f c).feedless
  have htitles : IsPlain "/* native implementations */" ∧ IsPlain "/* result accessors */" :=
    ⟨⟨.of_check rfl, by decide⟩, .of_check rfl, by decide⟩
  rw [functionItems]
  split
  · exact .nil
  · exact .append (.append (.cons htitles.1 himpls) (.blank (.cons htitles.2 haccessors)))
      (.blank .nil)

theorem neat_prototypeItems {flavor : Flavor} (h : flavor.Lines) (s : Surface) :
    NeatItems named (prototypeItems flavor s) := by
  have hmessages : NeatItems named
      (s.sends.toList.map fun c => .prototype .send (sendSignature s c)) :=
    .map fun c _ => (isLine_sendSignature c).feedless
  have hcallbacks : NeatItems named
      (s.callbacks.map fun c => .prototype (.callback c.hook) (callbackSignature c)) :=
    .map fun c _ => (isLine_callbackSignature c).feedless
  have hentries : NeatItems named (flavor.entryPoints.map (.prototype .entry)) :=
    .map fun e he => (h.entryPoints e he).feedless
  exact .append (.append (.append (neat_functionItems h.returns s)
    (neat_titled (.of_check rfl) hmessages)) (neat_titled (.of_check rfl) hcallbacks))
    (neat_titled (.of_check rfl) hentries)

/-- A header in front of its declarations. What it is made from is named there as it is. -/
def headerFront (flavor : Flavor) (name : String) (s : Surface) : List Item :=
  let fence := includeGuard name flavor.backend
  banner flavor.backend name s
    ++ [.raw ("#ifndef " ++ fence), .raw ("#define " ++ fence), .blank,
      .raw "#include <stdint.h>", .raw ("#include <" ++ flavor.runtimeHeader ++ ">"), .blank]
    ++ stateItems s
    ++ [.raw ("#include \"" ++ userHeaderPath name ++ "\"")]

/-- The declarations of a header. -/
def headerCode (flavor : Flavor) (name : String) (s : Surface) : List Item :=
  .blank :: typeItems s ++ prototypeItems flavor s
    ++ [.raw ("#endif /* " ++ includeGuard name flavor.backend ++ " */")]

theorem headerItems_eq (flavor : Flavor) (name : String) (s : Surface) :
    headerItems flavor name s = headerFront flavor name s ++ headerCode flavor name s := by
  simp only [headerItems, headerFront, headerCode, List.append_assoc, List.cons_append,
    List.nil_append]

theorem neat_headerCode {flavor : Flavor} (h : flavor.Lines) (name : String) (s : Surface) :
    NeatItems s.Named (headerCode flavor name s) := by
  have hguard := (feedless_includeGuard name flavor.backend).feeds
  have hend : IsPlain ("#endif /* " ++ includeGuard name flavor.backend ++ " */") :=
    .append (.of_check rfl) (.of_check rfl) (by decide)
  exact .append (.append (.blank (neat_typeItems s)) (neat_prototypeItems h s)) (.cons hend .nil)

theorem even_banner (backend name : String) (s : Surface) :
    ∀ item ∈ banner backend name s, item.Even named := by
  simp [banner, Item.even_raw]

theorem even_headerFront (flavor : Flavor) (name : String) (s : Surface) :
    ∀ item ∈ headerFront flavor name s, item.Even named := by
  have hstate : ∀ item ∈ stateItems s, item.Even named := by
    rw [stateItems]
    split
    · simp [Item.even_raw, Item.even_blank]
    · exact fun _ hitem => (List.not_mem_nil hitem).elim
  have hbanner : ∀ item ∈ banner flavor.backend name s, item.Even named :=
    even_banner flavor.backend name s
  simp only [headerFront, List.forall_mem_append, List.forall_mem_cons, Item.even_raw,
    Item.even_blank, List.not_mem_nil, false_implies, implies_true, and_true]
  exact ⟨hbanner, hstate⟩

section functions
variable {named : Prop} {s : Surface}

theorem neat_locals {f : NativeFunction} (hf : f ∈ s.functions) :
    Neat s.Named ((f.params.flatMap fun p => valueLocals s p.name p.type).map Step.line) := by
  refine .map_line fun t ht => ?_
  obtain ⟨p, hp, ht⟩ := List.mem_flatMap.mp ht
  exact isLine_valueLocals (fun h => (h.params f hf p hp).2) t ht

/-- An argument that is a list is assigned to at the front of a line. -/
theorem starts_param {f : NativeFunction} (hf : f ∈ s.functions) {p : Param} (hp : p ∈ f.params)
    (h : s.Named) : Starts named (ident p.name) :=
  (isLine_ident (h.params f hf p hp).1).starts

end functions

/-! ## Sources -/

namespace Generator
variable {g : Generator} {s : Surface}

/-- What holds of each part, and of parts one behind the other, holds of all functions. -/
theorem defined_induction {P : List Item → Prop} (hnil : P [])
    (happend : ∀ items items', P items → P items' → P (items ++ items')) (hblank : P [.blank])
    (henum : ∀ e, P (g.enum e)) (hforward : ∀ d, P (g.forward d))
    (hstruct : ∀ d n, P ((g.struct s d).run n).1)
    (haccessor : ∀ f c n, P ((g.accessor s f c).run n).1) (hsend : ∀ c n, P ((g.send s c).run n).1)
    (hwrapper : ∀ f ∈ s.functions, ∀ n, P ((g.wrapper s f).run n).1) (n₁ n₂ n₃ : Nat) :
    P (g.defined s n₁ n₂ n₃) := by
  have hflatMap {α : Type} {f : α → List Item} (h : ∀ x, P (f x)) (xs : List α) :
      P (xs.flatMap f) := by
    induction xs with
    | nil => exact hnil
    | cons x xs ih => exact happend _ _ (h x) ih
  have hstructs : P ((g.structs s).run 0).1 := by
    rw [structs]
    split
    · exact hnil
    · exact happend _ _ (hflatMap hforward _) (happend [.blank] _ hblank
        (collect_induction hnil happend (fun d _ => hstruct d) 0))
  have hresults : P (g.results s n₁ n₂) := happend _ _
    (collect_induction hnil happend (fun f _ => collect_induction hnil happend
      fun c _ => haccessor f c) n₁)
    (collect_induction hnil happend (fun c _ => hsend c) n₂)
  exact happend _ _ (happend _ _ (happend _ _ (hflatMap henum _) hstructs) hresults)
    (collect_induction hnil happend hwrapper n₃)

/-- The functions of a source and what stands behind them are neat. -/
def NeatSource (g : Generator) (s : Surface) : Prop :=
  ∀ n₁ n₂ n₃, NeatItems s.Named (.blank :: g.defined s n₁ n₂ n₃ ++ g.last s)

theorem neatSource_of_parts (henum : ∀ e, NeatItems s.Named (g.enum e))
    (hforward : ∀ d, NeatItems s.Named (g.forward d))
    (hstruct : ∀ d n, NeatItems s.Named ((g.struct s d).run n).1)
    (haccessor : ∀ f c n, NeatItems s.Named ((g.accessor s f c).run n).1)
    (hsend : ∀ c n, NeatItems s.Named ((g.send s c).run n).1)
    (hwrapper : ∀ f ∈ s.functions, ∀ n, NeatItems s.Named ((g.wrapper s f).run n).1)
    (hlast : NeatItems s.Named (g.last s)) : g.NeatSource s := fun n₁ n₂ n₃ =>
  .append (.blank (defined_induction .nil (fun _ _ => .append) (.blank .nil) henum hforward hstruct
    haccessor hsend hwrapper n₁ n₂ n₃)) hlast

theorem even_source (h : g.NeatSource s) (name : String) :
    ∀ item ∈ g.source s name, item.Even s.Named := by
  obtain ⟨n₁, n₂, n₃, hsource⟩ := g.exists_defined s name
  have hincludes : ∀ item ∈ g.includes.map Item.raw, item.Even s.Named :=
    List.forall_mem_map.mpr fun _ _ => Item.even_raw _ _
  have hfront : ∀ item ∈ g.front s name, item.Even s.Named :=
    List.forall_mem_append.mpr ⟨even_banner _ name s, List.forall_mem_append.mpr
      ⟨hincludes, List.forall_mem_singleton.mpr (Item.even_raw _ _)⟩⟩
  rw [hsource]
  exact List.forall_mem_append.mpr ⟨hfront, fun item hitem => (h n₁ n₂ n₃ item hitem).even⟩

end Generator

end C

open C

/-! ## The in-process backend -/

namespace Nif
variable {named : Prop} {s : Surface}

theorem neat_encode {src dst : String} (hsrc : Feedless src) (hdst : IsLine named dst) (type : Ty)
    (n : Nat) : Neat named ((encode s type src dst).run n).1 := by
  have := hsrc.feeds
  have := hdst.feedless.feeds
  have := hdst.starts.toFront
  cases type with
  | list element =>
    exact .bare (.append (.cons (.of_check rfl) (.loop (.of_check rfl) (.of_check rfl)
      (.line (.of_check rfl)))) (.line (.of_check rfl)))
  | named | label => exact .line (.of_check rfl)

/-- Storage for a list is assigned to the target, at the front of a line. -/
theorem neat_decode {term target onFail : String} (hterm : Feedless term)
    (htarget : Feedless target) (hstarts : named → Starts named target)
    (hfail : IsLine named onFail) (type : Ty) (n : Nat) :
    Neat named ((decode s type term target onFail).run n).1 := by
  have := hterm.feeds
  have := htarget.feeds
  cases type with
  | list element =>
    have : Front named (target ++ " = bridge_alloc(sizeof(*") ['_'] :=
      (Starts.of_named hstarts (by decide)).toFront
    exact .bare (.append
      (.cons (.of_check rfl) (.cons (.of_check rfl) (.block (.of_check rfl) (.line hfail))))
      (.cons (.of_check rfl) (.loop (.of_check rfl) (.of_check rfl)
        (.block (.of_check rfl) (.line hfail)))))
  | named | label => exact .block (.of_check rfl) (.line hfail)

theorem neat_encodeItem (item : ResultItem) (i n : Nat) :
    Neat named ((encodeItem s item i).run n).1 := by
  rw [encodeItem]
  cases item.label with
  | some label => exact .line (.of_check rfl)
  | none => exact neat_encode (.of_check rfl) (.of_check rfl) item.type n

theorem neat_encodeClause (c : Clause) {dst : String} (hdst : IsLine named dst) (n : Nat) :
    Neat named ((encodeClause s c dst).run n).1 := by
  have := hdst.feedless.feeds
  have := hdst.starts.toFront
  have hlast : IsLine named (if c.items.length = 1 then dst ++ " = items[0];"
      else dst ++ " = bridge_make_tuple(env, items, " ++ Text.decimal c.items.length ++ ");") := by
    split
    · exact .of_check rfl
    · exact .of_check rfl
  exact .append (.cons (.of_check rfl) (.collect (fun x _ => neat_encodeItem x.1 x.2) n))
    (.line hlast)

theorem isLine_makeSignature (name : String) : IsLine True (makeSignature name).text := by
  unfold makeSignature
  exact .of_check rfl

theorem isLine_getSignature (name : String) : IsLine True (getSignature name).text := by
  unfold getSignature
  exact .of_check rfl

theorem isLine_exportSignature (f : NativeFunction) : IsLine True (exportSignature f).text := by
  unfold exportSignature exportName
  exact .of_check rfl

theorem neat_enumItems (e : Enum) : NeatItems named (enumItems e) := by
  have hmake (v : String) : Neat named (block ("if (value == " ++ enumConstant e.name v ++ ")")
      [.line ("return bridge_make_atom(env, " ++ literal v ++ ");")]) :=
    .block (.of_check rfl) (.line (.of_check rfl))
  have hget (v : String) : Neat named (block ("if (bridge_is_atom(env, term, " ++ literal v ++ "))")
      [.line ("*out = " ++ enumConstant e.name v ++ ";"), .line "return 1;"]) :=
    .block (.of_check rfl) (.cons (.of_check rfl) (.line (.of_check rfl)))
  have hmakes := (Neat.flatMap fun v (_ : v ∈ e.variants) => hmake v).append
    (.line (t := "return bridge_make_atom(env, \"undefined\");") (.of_check rfl))
  have hgets := (Neat.flatMap fun v (_ : v ∈ e.variants) => hget v).append
    (.line (t := "return 0;") (.of_check rfl))
  exact .definition _ (isLine_makeSignature _) hmakes (.blank
    (.definition _ (isLine_getSignature _) hgets (.blank .nil)))

theorem neat_encodeMember (m : Member) (slot n : Nat) :
    Neat named ((encodeMember s m slot).run n).1 :=
  .cons (.of_check rfl) (neat_encode (.of_check rfl) (.of_check rfl) m.type n)

theorem neat_decodeMember (m : Member) (n : Nat) : Neat named ((decodeMember s m).run n).1 := by
  have htarget : IsLine named ("out->" ++ ident m.name) := .of_check rfl
  exact .append (.block (.of_check rfl) (.line (.of_check rfl)))
    (neat_decode (.of_check rfl) htarget.feedless (fun _ => htarget.starts) (.of_check rfl) _ n)

theorem neat_structItems (d : Struct) (n : Nat) : NeatItems named ((structItems s d).run n).1 := by
  let count := Text.decimal (d.members.length + 1)
  let encoded := (collect (fun x => encodeMember s x.1 (x.2 + 1)) d.members.zipIdx).run n
  let decoded := (collect (decodeMember s) d.members).run encoded.2
  have hmembers : Neat named encoded.1 := .collect (fun x _ => neat_encodeMember x.1 _) n
  have hfields : Neat named decoded.1 := .collect (fun m _ => neat_decodeMember m) _
  have hlast : IsLine named ("return bridge_make_map(env, keys, values, " ++ count ++ ");") :=
    .of_check rfl
  have hmake : Neat named (Step.line ("BridgeTerm keys[" ++ count ++ "];")
      :: Step.line ("BridgeTerm values[" ++ count ++ "];")
      :: Step.line "keys[0] = bridge_make_atom(env, \"__struct__\");"
      :: Step.line ("values[0] = bridge_make_atom(env, " ++ literal d.backing ++ ");")
      :: encoded.1
        ++ [Step.line ("return bridge_make_map(env, keys, values, " ++ count ++ ");")]) :=
    .cons (.of_check rfl) (.cons (.of_check rfl) (.cons (.of_check rfl) (.cons (.of_check rfl)
      (hmembers.append (.line hlast)))))
  have hget : Neat named (Step.line "BridgeTerm field;" :: decoded.1 ++ [Step.line "return 1;"]) :=
    .cons (.of_check rfl) (hfields.append (.line (.of_check rfl)))
  exact .definition _ (isLine_makeSignature d.name) hmake (.blank
    (.definition _ (isLine_getSignature d.name) hget (.blank .nil)))

theorem neat_accessorItems (f : NativeFunction) (c : Clause) (n : Nat) :
    NeatItems named ((accessorItems s f c).run n).1 := by
  have hreturns : IsLine True "BridgeTerm" := .of_check rfl
  have hbody : Neat named (Step.line "BridgeTerm result;" :: ((encodeClause s c "result").run n).1
      ++ [Step.line "return result;"]) :=
    .cons (.of_check rfl) ((neat_encodeClause c (.of_check rfl) n).append (.line (.of_check rfl)))
  exact .definition _ (isLine_accessorSignature hreturns f c) hbody (.blank .nil)

theorem neat_sendItems (c : Clause) (n : Nat) : NeatItems named ((sendItems s c).run n).1 := by
  have hbody : Neat named (Step.line "BridgeTerm message;" :: ((encodeClause s c "message").run n).1
      ++ [Step.line "return bridge_send(env, &pid, message, flags);"]) :=
    .cons (.of_check rfl) ((neat_encodeClause c (.of_check rfl) n).append (.line (.of_check rfl)))
  exact .definition _ (isLine_sendSignature c) hbody (.blank .nil)

theorem neat_exportItems {f : NativeFunction} (hf : f ∈ s.functions) (n : Nat) :
    NeatItems s.Named ((exportItems s f).run n).1 := by
  have hparam (x : Param × Nat) (hx : x ∈ f.params.zipIdx) (n : Nat) :
      Neat s.Named ((decodeParam s x.1 x.2).run n).1 := by
    have hmem : x.1 ∈ f.params := List.fst_mem_of_mem_zipIdx hx
    exact neat_decode (.of_check rfl) (.of_check rfl) (starts_param hf hmem) (.of_check rfl) _ n
  have hlocals := (neat_locals hf).cons (t := "(void)argc;") (.of_check rfl)
  have hcall : IsLine s.Named (callText s f) := isLine_callText f
  have hbody := (hlocals.append (.collect hparam n)).append (.line hcall)
  exact .definition _ (isLine_exportSignature f) hbody (.blank .nil)

theorem neat_tableItems (s : Surface) : NeatItems named (tableItems s) := by
  have hflag (kind : Option DirtyKind) : Feedless (dirtyFlag kind) := by
    unfold dirtyFlag
    split
    all_goals exact .of_check rfl
  have hrow : ∀ r ∈ exportRows s, IsLine named r.text := by
    intro r hr
    obtain ⟨f, -, rfl⟩ := List.mem_map.mp hr
    have := (hflag (s.dirtyKind? f.name f.arity)).feeds
    unfold ExportRow.text exportName
    exact .of_check rfl
  have hlast : IsLine named "\x7bNULL, 0, NULL, 0\x7d," := .of_check rfl
  have htail : IsPlain ("\x7d" ++ ";") := .append (.of_check rfl) (.of_check rfl) (by decide)
  exact .cons ⟨.of_check rfl, .append (.map_line hrow) (.line hlast), htail⟩ (.blank .nil)

theorem isPlain_init (s : Surface) : (initItem s).Neat named := by
  have hhook (h : Hook) : Feedless (hookFunction s h) := by
    rw [hookFunction]
    split
    · exact (isIdent_ident _).feedless
    · exact .of_check rfl
  have := (hhook .load).feeds
  have := (hhook .upgrade).feeds
  have := (hhook .unload).feeds
  have hline : IsPlain ("BRIDGE_INIT(" ++ literal s.moduleName ++ ", bridge_funcs, "
      ++ Text.decimal s.functions.length ++ ", " ++ hookFunction s .load ++ ", "
      ++ hookFunction s .upgrade ++ ", " ++ hookFunction s .unload ++ ")") :=
    .append (.of_check rfl) (.of_check rfl) (by decide)
  exact hline

theorem neat_source (s : Surface) : generator.NeatSource s := by
  refine Generator.neatSource_of_parts neat_enumItems (fun d => ?_) neat_structItems
    neat_accessorItems neat_sendItems (fun f hf => neat_exportItems hf) ?_
  · exact .cons (isLine_makeSignature d.name).feedless
      (.cons (isLine_getSignature d.name).feedless .nil)
  · exact (neat_tableItems s).append (.cons (isPlain_init s) .nil)

theorem flavor_lines : flavor.Lines where
  backend := .of_check (t := "nif") rfl
  runtimeHeader := .of_check (t := "bridgespec/nif.h") rfl
  returns := .of_check (t := "BridgeTerm") rfl
  entryPoints _ h := (List.not_mem_nil h).elim

end Nif

/-! ## The out-of-process backend -/

namespace CNode
variable {named : Prop} {s : Surface}

theorem neat_encode {src : String} (hsrc : Feedless src) (type : Ty) (n : Nat) :
    Neat named ((encode s type src).run n).1 := by
  have := hsrc.feeds
  cases type with
  | list element =>
    exact .append (.cons (.of_check rfl) (.loop (.of_check rfl) (.of_check rfl)
      (.line (.of_check rfl)))) (.line (.of_check rfl))
  | named | label => exact .line (.of_check rfl)

/-- Storage for a list is assigned to the target, at the front of a line. -/
theorem neat_decode {target onFail : String} (htarget : Feedless target)
    (hstarts : named → Starts named target) (hfail : IsLine named onFail) (type : Ty) (n : Nat) :
    Neat named ((decode s type target onFail).run n).1 := by
  have := htarget.feeds
  cases type with
  | list element =>
    have : Front named (target ++ " = bridge_alloc(sizeof(*") ['_'] :=
      (Starts.of_named hstarts (by decide)).toFront
    exact .append (.append (.block (.of_check rfl) (.line hfail))
      (.cons (.of_check rfl) (.loop (.of_check rfl) (.of_check rfl)
        (.block (.of_check rfl) (.line hfail)))))
      (.block (.of_check rfl) (.line hfail))
  | named | label => exact .block (.of_check rfl) (.line hfail)

theorem neat_encodeItem (item : ResultItem) (n : Nat) :
    Neat named ((encodeItem s item).run n).1 := by
  rw [encodeItem]
  cases item.label with
  | some label => exact .line (.of_check rfl)
  | none => exact neat_encode (.of_check rfl) item.type n

theorem neat_encodeClause (c : Clause) (n : Nat) :
    Neat named ((encodeClause s c).run n).1 := by
  refine .append ?_ (.collect (fun item _ => neat_encodeItem item) n)
  split
  · exact .line (.of_check rfl)
  · exact .nil

theorem isLine_encodeSignature (name : String) : IsLine True (encodeSignature name).text := by
  unfold encodeSignature
  exact .of_check rfl

theorem isLine_decodeSignature (name : String) : IsLine True (decodeSignature name).text := by
  unfold decodeSignature
  exact .of_check rfl

theorem isLine_wrapperSignature (f : NativeFunction) : IsLine True (wrapperSignature f).text := by
  unfold wrapperSignature wrapperName
  exact .of_check rfl

theorem isLine_dispatchSignature : IsLine True dispatchSignature.text := by
  unfold dispatchSignature
  exact .of_check rfl

theorem isLine_mainSignature : IsLine True mainSignature.text := by
  unfold mainSignature
  exact .of_check rfl

theorem neat_enumItems (e : Enum) : NeatItems named (enumItems e) := by
  have hencode (v : String) : Neat named (block ("if (value == " ++ enumConstant e.name v ++ ")")
      [.line ("bridge_encode_atom(out, " ++ literal v ++ ");"), .line "return;"]) :=
    .block (.of_check rfl) (.cons (.of_check rfl) (.line (.of_check rfl)))
  have hdecode (v : String) : Neat named (block ("if (strcmp(atom, " ++ literal v ++ ") == 0)")
      [.line ("*out = " ++ enumConstant e.name v ++ ";"), .line "return 1;"]) :=
    .block (.of_check rfl) (.cons (.of_check rfl) (.line (.of_check rfl)))
  have hread : Neat named (.line "char *atom = NULL;"
      :: block "if (!bridge_decode_atom(buf, index, &atom))" [.line "return 0;"]) :=
    .cons (.of_check rfl) (.block (.of_check rfl) (.line (.of_check rfl)))
  have hencodes := (Neat.flatMap fun v (_ : v ∈ e.variants) => hencode v).append
    (.line (t := "bridge_encode_atom(out, \"undefined\");") (.of_check rfl))
  have hdecodes := (hread.append (.flatMap fun v (_ : v ∈ e.variants) => hdecode v)).append
    (.line (t := "return 0;") (.of_check rfl))
  exact .definition _ (isLine_encodeSignature _) hencodes (.blank
    (.definition _ (isLine_decodeSignature _) hdecodes (.blank .nil)))

theorem neat_encodeMember (m : Member) (n : Nat) : Neat named ((encodeMember s m).run n).1 :=
  .cons (.of_check rfl) (neat_encode (.of_check rfl) m.type n)

theorem neat_decodeMember (m : Member) (n : Nat) : Neat named ((decodeMember s m).run n).1 := by
  have htarget : IsLine named ("out->" ++ ident m.name) := .of_check rfl
  have hfail : IsLine named "return 0;" := .of_check rfl
  have hvalue := neat_decode (s := s) htarget.feedless (fun _ => htarget.starts) hfail m.type n
  exact .block (.of_check rfl) (.append hvalue (.line (.of_check rfl)))

/-- A field that is missing or does not fit ends the conversion. -/
theorem neat_refusal {head : String} (hhead : IsLine named head) :
    Neat named (block head [.line "return 0;"]) :=
  .block hhead (.line (.of_check rfl))

theorem neat_structItems (d : Struct) (n : Nat) : NeatItems named ((structItems s d).run n).1 := by
  let count := Text.decimal (d.members.length + 1)
  let encoded := (collect (encodeMember s) d.members).run n
  let decoded := (collect (decodeMember s) d.members).run encoded.2
  have hmembers : Neat named encoded.1 := .collect (fun m _ => neat_encodeMember m) n
  have hfields : Neat named decoded.1 := .collect (fun m _ => neat_decodeMember m) _
  have hencode : Neat named (.line ("bridge_encode_map_header(out, " ++ count ++ ");")
      :: .line "bridge_encode_atom(out, \"__struct__\");"
      :: .line ("bridge_encode_atom(out, " ++ literal d.backing ++ ");") :: encoded.1) :=
    .cons (.of_check rfl) (.cons (.of_check rfl) (.cons (.of_check rfl) hmembers))
  have hkey : Neat named (.line "char *key = NULL;"
      :: block "if (!bridge_decode_atom(buf, index, &key))" [.line "return 0;"]) :=
    .cons (.of_check rfl) (neat_refusal (.of_check rfl))
  have hskip : Neat named (block "if (!bridge_skip_term(buf, index))" [.line "return 0;"]) :=
    neat_refusal (.of_check rfl)
  have hhead : IsLine named "for (int i = 0; i < arity; i++)" := .of_check rfl
  have hloop := Neat.block hhead ((hkey.append hfields).append hskip)
  have harity : Neat named (.line "int arity = 0;"
      :: block "if (!bridge_decode_map_header(buf, index, &arity))" [.line "return 0;"]) :=
    .cons (.of_check rfl) (neat_refusal (.of_check rfl))
  have hdecode := (harity.append hloop).append (.line (t := "return 1;") (.of_check rfl))
  exact .definition _ (isLine_encodeSignature d.name) hencode (.blank
    (.definition _ (isLine_decodeSignature d.name) hdecode (.blank .nil)))

theorem neat_accessorItems (f : NativeFunction) (c : Clause) (n : Nat) :
    NeatItems named ((accessorItems s f c).run n).1 := by
  have hreturns : IsLine True "int" := .of_check rfl
  have hbody : Neat named (Step.line "BridgeBuffer *out = bridge_reply_buffer(env);"
      :: ((encodeClause s c).run n).1 ++ [Step.line "return bridge_reply(env);"]) :=
    .cons (.of_check rfl) ((neat_encodeClause c n).append (.line (.of_check rfl)))
  exact .definition _ (isLine_accessorSignature hreturns f c) hbody (.blank .nil)

theorem neat_sendItems (c : Clause) (n : Nat) : NeatItems named ((sendItems s c).run n).1 := by
  have hbody : Neat named (Step.line "BridgeBuffer *out = bridge_send_buffer(env);"
      :: ((encodeClause s c).run n).1 ++ [Step.line "return bridge_send(env, &pid, flags);"]) :=
    .cons (.of_check rfl) ((neat_encodeClause c n).append (.line (.of_check rfl)))
  exact .definition _ (isLine_sendSignature c) hbody (.blank .nil)

theorem neat_unusedRequest (b : Bool) : Neat named (if b then unusedRequest else []) := by
  split
  · exact .cons (.of_check rfl) (.line (.of_check rfl))
  · exact .nil

theorem neat_wrapperItems {f : NativeFunction} (hf : f ∈ s.functions) (n : Nat) :
    NeatItems s.Named ((wrapperItems s f).run n).1 := by
  have hparam (p : Param) (hp : p ∈ f.params) (n : Nat) :
      Neat s.Named ((decodeParam s p).run n).1 :=
    neat_decode (.of_check rfl) (starts_param hf hp) (.of_check rfl) p.type n
  have hdecoded := (neat_locals hf).append (.collect hparam n)
  have hunused : Neat s.Named (if f.params.isEmpty then unusedRequest else []) :=
    neat_unusedRequest _
  have hcall : IsLine s.Named (callText s f) := isLine_callText f
  have hbody := (hdecoded.append hunused).append (.line hcall)
  exact .definition _ (isLine_wrapperSignature f) hbody (.blank .nil)

theorem neat_dispatchItems (s : Surface) : NeatItems named (dispatchItems s) := by
  have hbranch : ∀ b ∈ branches s, Neat named b.steps := by
    intro b hb
    obtain ⟨f, -, rfl⟩ := List.mem_map.mp hb
    unfold Branch.steps wrapperName
    exact .block (.of_check rfl) (.line (.of_check rfl))
  have hlast : IsLine named "return bridge_reply_undefined(env, fun, arity);" := .of_check rfl
  have hunused : Neat named (if s.functions.isEmpty then unusedRequest else []) :=
    neat_unusedRequest _
  have hbody := (hunused.append (.flatMap hbranch)).append (.line hlast)
  exact .definition _ isLine_dispatchSignature hbody (.blank .nil)

theorem neat_mainItem (s : Surface) : NeatItems named [mainItem s] := by
  refine .definition _ isLine_mainSignature ?_ .nil
  split
  · exact .line (.of_check rfl)
  · exact .line (.of_check rfl)

theorem neat_source (s : Surface) : generator.NeatSource s := by
  refine Generator.neatSource_of_parts neat_enumItems (fun d => ?_) neat_structItems
    neat_accessorItems neat_sendItems (fun f hf => neat_wrapperItems hf) ?_
  · exact .cons (isLine_encodeSignature d.name).feedless
      (.cons (isLine_decodeSignature d.name).feedless .nil)
  · exact (neat_dispatchItems s).append (neat_mainItem s)

theorem flavor_lines : flavor.Lines where
  backend := .of_check (t := "cnode") rfl
  runtimeHeader := .of_check (t := "bridgespec/cnode.h") rfl
  returns := .of_check (t := "int") rfl
  entryPoints := List.forall_mem_singleton.mpr isLine_dispatchSignature

end CNode

/-! ## All files -/

theorem C.blocks_balanced (name : String) (s : Surface) :
    (LaidOut s.Named (headerItems Nif.flavor name s) (Nif.backend.header name s) ∧
      LaidOut s.Named (Nif.sourceItems name s) (Nif.backend.source name s)) ∧
    LaidOut s.Named (headerItems CNode.flavor name s) (CNode.backend.header name s) ∧
      LaidOut s.Named (CNode.sourceItems name s) (CNode.backend.source name s) := by
  have hheader {flavor : Flavor} (h : flavor.Lines) :
      ∀ item ∈ headerItems flavor name s, item.Even s.Named := by
    rw [headerItems_eq]
    exact List.forall_mem_append.mpr ⟨even_headerFront flavor name s,
      fun item hitem => (neat_headerCode h name s item hitem).even⟩
  dsimp only [Nif.backend, CNode.backend]
  rw [Nif.sourceItems_eq, CNode.sourceItems_eq]
  exact ⟨⟨laidOut_of_even (hheader Nif.flavor_lines),
      laidOut_of_even (Generator.even_source (Nif.neat_source s) name)⟩,
    laidOut_of_even (hheader CNode.flavor_lines),
    laidOut_of_even (Generator.even_source (CNode.neat_source s) name)⟩

/-- What is written for a bad element of a list stands in four blocks: in the function, in the block
of the argument, in the loop and in the condition. -/
theorem C.blocks_balanced_nested :
    let s : Surface :=
      { moduleName := "M", functions := [⟨"f", 1, [⟨"xs", .list (.named "int")⟩], []⟩] }
    let steps := (Nif.sourceItems "n" s).flatMap Item.steps
    let fail := "return bridge_raise_badarg(env, \"xs\");"
    s.Named ∧ steps[20]? = some (.line fail) ∧
      (Writer.after (steps.take 21)).text =
        (Writer.after (steps.take 20)).text ++ ("        " ++ fail ++ "\n") := by
  intro s steps fail
  have hnamed : s.Named := ⟨by decide, by decide, by decide⟩
  have hstep : steps[20]? = some (.line fail) := rfl
  have htake : steps.take 21 = steps.take 20 ++ [Step.line fail] := by
    rw [List.take_add_one, hstep, Option.toList_some]
  have hsplit : steps = steps.take 20 ++ Step.line fail :: steps.drop 21 := by
    rw [List.append_cons, ← htake, List.take_append_drop]
  obtain ⟨depth, hdepth, htext, -⟩ :=
    (blocks_balanced "n" s).1.2.lines _ (.line fail) _ fail hsplit rfl
  have hopened : opened (steps.take 20) = 5 := by decide +kernel
  have hclosed : closed (steps.take 20 ++ [Step.line fail]) = 1 := by decide +kernel
  obtain rfl : depth = 4 := by omega
  rw [htake]
  exact ⟨hnamed, hstep, htext⟩

end NativeInterface
