import NativeInterface.Proofs.FileLines

/-!
# Headers and sources agree

For every surface and both backends, in the text of the two files: the accessors and messages that
the header declares are those that the source defines, a wrapper has the parameters of its
implementation as locals and passes them on, and the lines for a value name that value as it is
declared (`C.Agree`). The header and the parts of the source are written independently of each
other, and they are read here with no knowledge of how they were written.
-/

namespace NativeInterface.C
variable {flavor : Flavor} {steps : List Step} {s : Surface} {α : Type}

/-! ## Agreement -/

/-- The lines under a comment, up to the next empty one. -/
def under (title : String) (lines : List String) : List String :=
  ((lines.dropWhile (· ≠ "/* " ++ title ++ " */")).drop 1).takeWhile (· ≠ "")

/-- The lines name all of the given names, and beside them only words of the generators. -/
structure UsesIn (names lines : List String) : Prop where
  known : ∀ word ∈ lines.flatMap words, Known names word
  used : ∀ name ∈ names, name ≠ "" → name ∈ lines.flatMap words

/-- The C names of a value: a list has its length behind it. -/
def cNames (name : String) (type : Ty) : List String :=
  if type.isList then [ident name, ident name ++ "_length"] else [ident name]

/-- The declarations declare these names, each of them one. -/
def Declare (decls names : List String) : Prop :=
  decls.map (fun decl => (declaredIn decl.toList).map String.ofList) = names.map some

/-- Lines for values one behind the other, with lines around them that name no value. -/
def PartsIn {α : Type} (names : α → List String) (xs : List α) (lines : List String) : Prop :=
  ∃ head chunks tail, lines = head ++ chunks.flatten ++ tail ∧ UsesIn [] head ∧ UsesIn [] tail ∧
    List.Forall₂ (fun x chunk => UsesIn (names x) chunk) xs chunks

/-- The head of a function. -/
def headText (returns name : String) (params : List String) : String :=
  returns ++ " " ++ name ++ "(" ++ Text.join ", " params ++ ")"

/-- How the functions of a backend look. -/
structure Convention where
  /-- What implementations, accessors and wrappers return. -/
  returns : String
  /-- The heads of the two helpers of a type, given the C name of the type: one writes a value, the
  other reads one. -/
  helpers : String → String × String
  /-- What the name of a wrapper starts with. -/
  stem : String
  /-- The parameters of a wrapper. -/
  request : List String
  /-- What stands in braces behind the wrappers. -/
  last : List String

/-- What a source has in braces, in order. -/
structure Outline where
  enums : List Braced
  structs : List Braced
  accessors : List Braced
  messages : List Braced
  wrappers : List Braced
  last : List Braced

/-- A function that makes a result or a message. Behind fixed parameters it takes the values of the
clause, and its lines name each of them. -/
structure Makes (head : List String → String) (c : Clause) (d : Braced) : Prop where
  head : ∃ decls, d.head = head decls ∧
    Declare decls (c.values.flatMap fun v => cNames v.name v.type)
  body : PartsIn (fun item => if item.isLabel then [] else cNames item.name item.type) c.items
    d.body

/-- The body of a wrapper: it has the parameters of the implementation as locals, fills each of
them, and passes them on by name and in order. -/
def Forwards (name : String) (decls : List String) (f : NativeFunction) (body : List String) :
    Prop :=
  ∃ head locals chunks tail,
    body = head ++ locals ++ chunks.flatten ++ tail ++ ["  return " ++ name ++ "("
      ++ Text.join ", " ("env" :: f.params.flatMap fun p => cNames p.name p.type) ++ ");"] ∧
    List.Forall₂ (fun decl line =>
      line = "  " ++ decl ++ " = NULL;" ∨ line = "  " ++ decl ++ " = \x7b0\x7d;") decls locals ∧
    UsesIn [] head ∧ UsesIn [] tail ∧
    List.Forall₂ (fun p chunk => UsesIn (cNames p.name p.type) chunk) f.params chunks

/-- A wrapper, beside the prototype of the implementation. -/
structure Wraps (k : Convention) (f : NativeFunction) (prototype : String) (d : Braced) : Prop where
  head : d.head = "static " ++ headText k.returns
    (k.stem ++ ident f.name ++ "_" ++ Text.decimal f.arity) k.request
  body : ∃ name decls, (name = ident f.name ∨ name = ident f.name ++ "_" ++ Text.decimal f.arity) ∧
    prototype = headText k.returns name ("BridgeEnv *env" :: decls) ++ ";" ∧
    Declare decls (f.params.flatMap fun p => cNames p.name p.type) ∧ Forwards name decls f d.body

/-- The header and the source of a surface agree. -/
structure Agree (k : Convention) (s : Surface) (header source : List String) (o : Outline) : Prop
    where
  source : braced source =
    o.enums ++ o.structs ++ o.accessors ++ o.messages ++ o.wrappers ++ o.last
  enums : o.enums.map (·.head) =
    s.enums.flatMap fun e => [(k.helpers (ident e.name)).1, (k.helpers (ident e.name)).2]
  last : o.last.map (·.head) = k.last
  /-- Accessors and messages are declared as they are defined, in the same order. -/
  declared : under "result accessors" header = o.accessors.map (·.head ++ ";") ∧
    under "messages" header = o.messages.map (·.head ++ ";")
  accessors : List.Forall₂
    (fun p d => Makes (fun decls => headText k.returns (accessorName s p.1 p.2)
      ("BridgeEnv *env" :: decls)) p.2 d)
    (s.functions.flatMap fun f => f.results.map fun c => (f, c)) o.accessors
  messages : List.Forall₂
    (fun c d => Makes (fun decls => headText "int" (ident c.accessor)
      ("BridgeEnv *env" :: "BridgePid pid" :: "int flags" :: decls)) c d)
    s.sends.toList o.messages
  /-- There is one prototype and one wrapper for each function. -/
  implementations : (under "native implementations" header).length = s.functions.length
  wrappers : List.Forall₂ (fun p d => Wraps k p.1 p.2 d)
    (s.functions.zip (under "native implementations" header)) o.wrappers
  /-- The fields of a struct; enums are declared in front of structs. -/
  fields : List.Forall₂
    (fun d b => b.head = "struct " ++ ident d.name ++ "_t" ∧
      ∃ decls, b.body = decls.map (fun decl => "  " ++ decl ++ ";") ∧
        Declare decls (d.members.flatMap fun m => cNames m.name m.type))
    s.structs ((braced header).drop s.enums.length)
  /-- A struct has a helper for each direction, which finds its fields under a path. -/
  conversions : List.Forall₂
    (fun p d => d.head = p.2.2 ∧
      PartsIn (fun m => (cNames m.name m.type).map (p.2.1 ++ ·)) p.1.members d.body)
    (s.structs.flatMap fun d => [(d, "value.", (k.helpers (ident d.name)).1),
      (d, "out->", (k.helpers (ident d.name)).2)])
    o.structs

/-! ## Declarations -/

theorem declare_valueDecls (s : Surface) (name : String) (type : Ty) :
    Declare (valueDecls s name type) (cNames name type) := by
  have hname := isIdent_ident name
  have hlength := isIdent_lengthName name
  have hsize : IsType "unsigned int" := isType_builtin _ (by decide)
  change Declare _ (valueNames name type)
  cases type with
  | list element =>
    have htype := isType_pointerTo (isType_typeText s element)
    simp [Declare, valueDecls, valueNames, Ty.isList, declaredIn_declare htype hname,
      declaredIn_declare hsize hlength]
  | named leaf =>
    have htype := isType_typeText s (.named leaf)
    simp [Declare, valueDecls, valueNames, Ty.isList, declaredIn_declare htype hname]
  | label =>
    have htype := isType_typeText s .label
    simp [Declare, valueDecls, valueNames, Ty.isList, declaredIn_declare htype hname]

theorem declare_flatMap (s : Surface) (name : α → String) (type : α → Ty) (xs : List α) :
    Declare (xs.flatMap fun x => valueDecls s (name x) (type x))
      (xs.flatMap fun x => cNames (name x) (type x)) := by
  have hone (x : α) := declare_valueDecls s (name x) (type x)
  simp only [Declare] at hone ⊢
  simp only [List.map_flatMap, hone]

/-! ## Lines of code -/

theorem Uses.usesIn {names : List String} (h : Uses names steps) (n : Nat) :
    UsesIn names (linesAt n steps) := by
  refine ⟨?_, ?_⟩
  · rw [words_linesAt]
    exact h.known
  · rw [words_linesAt]
    exact h.used

theorem Handles.usesIn {path name : String} {type : Ty} (h : Handles s path name type steps)
    (n : Nat) : UsesIn ((cNames name type).map (path ++ ·)) (linesAt n steps) :=
  (handles_iff.mp h).usesIn n

theorem Handles.usesIn_plain {name : String} {type : Ty} (h : Handles s "" name type steps)
    (n : Nat) : UsesIn (cNames name type) (linesAt n steps) := by
  have huses := h.usesIn n
  simpa using huses

theorem HandlesItem.usesIn {item : ResultItem} (h : HandlesItem s item steps) (n : Nat) :
    UsesIn (if item.isLabel then [] else cNames item.name item.type) (linesAt n steps) := by
  rw [HandlesItem] at h
  split at h
  · rename_i hlabel
    rw [if_pos hlabel]
    exact h.usesIn n
  · rename_i hlabel
    rw [if_neg hlabel]
    exact h.usesIn_plain n

/-- Code in pieces is written in pieces, each at some margin. -/
theorem exists_chunks {R : α → List Step → Prop} {R' : α → List String → Prop} {xs : List α}
    {chunks : List (List Step)} (h : List.Forall₂ R xs chunks)
    (hR : ∀ x chunk n, R x chunk → R' x (linesAt n chunk)) (n : Nat) :
    ∃ lines, linesAt n chunks.flatten = lines.flatten ∧ List.Forall₂ R' xs lines := by
  induction h generalizing n with
  | nil => exact ⟨[], rfl, .nil⟩
  | @cons x chunk xs chunks hx _ ih =>
    obtain ⟨lines, hlines, hall⟩ := ih (indentAfter n chunk)
    refine ⟨linesAt n chunk :: lines, ?_, .cons (hR x chunk n hx) hall⟩
    rw [List.flatten_cons, linesAt_append, hlines, List.flatten_cons]

theorem Parts.partsIn {P : α → List Step → Prop} {names : α → List String} {xs : List α}
    {body : List Step} (h : Parts P xs body)
    (hP : ∀ x chunk n, P x chunk → UsesIn (names x) (linesAt n chunk)) (n : Nat) :
    PartsIn names xs (linesAt n body) := by
  obtain ⟨head, chunks, tail, rfl, hhead, htail, hall⟩ := h
  obtain ⟨lines, hlines, huses⟩ := exists_chunks hall hP (indentAfter n head)
  refine ⟨linesAt n head, lines, linesAt (indentAfter n (head ++ chunks.flatten)) tail, ?_,
    hhead.usesIn _, htail.usesIn _, huses⟩
  rw [linesAt_append, linesAt_append, hlines]

theorem indentAfter_map_line (texts : List String) (n : Nat) :
    indentAfter n (texts.map Step.line) = n := by
  induction texts with
  | nil => rfl
  | cons t texts ih => exact ih

/-- Lines that are not empty, at a margin. -/
theorem linesAt_map_line {texts : List String} (h : ∀ t ∈ texts, t ≠ "") (n : Nat) :
    linesAt n (texts.map Step.line) = texts.map (margin n ++ ·) := by
  induction texts with
  | nil => rfl
  | cons t texts ih =>
    rw [List.forall_mem_cons] at h
    have hempty : ¬t.isEmpty := by simpa using h.1
    rw [List.map_cons, linesAt, Step.lineAt, if_neg hempty, List.map_cons]
    exact congrArg _ (ih h.2)

/-- The last line of balanced code stands at the margin where the code began. -/
theorem linesAt_concat {t : String} (ht : t ≠ "") (h : Balanced (steps ++ [Step.line t]))
    (n : Nat) :
    linesAt n (steps ++ [Step.line t]) = linesAt n steps ++ [margin n ++ t] := by
  have hdepth := h n
  rw [depth?_append] at hdepth
  obtain ⟨k, hsteps, hlast⟩ := Option.bind_eq_some_iff.mp hdepth
  obtain rfl : k = n := Option.some.inj hlast
  have hempty : ¬t.isEmpty := by simpa using ht
  rw [linesAt_append, indentAfter_of_depth? hsteps, linesAt, Step.lineAt, if_neg hempty]
  rfl

/-! ## Wrappers -/

theorem localText_cases (decl : String) :
    localText decl = decl ++ " = NULL;" ∨ localText decl = decl ++ " = \x7b0\x7d;" := by
  rw [localText]
  split
  · exact .inl (by simp only [String.append_assoc]; rfl)
  · exact .inr (by simp only [String.append_assoc]; rfl)

/-- The locals of a wrapper are the declarations of the parameters, with nothing in them. -/
theorem forall₂_locals (decls : List String) :
    List.Forall₂ (fun decl line =>
        line = "  " ++ decl ++ " = NULL;" ∨ line = "  " ++ decl ++ " = \x7b0\x7d;")
      decls ((decls.map localText).map (margin 1 ++ ·)) := by
  rw [List.map_map, List.forall₂_map_right_iff, List.forall₂_same]
  intro decl _
  have hmargin : margin 1 = "  " := by decide
  rw [Function.comp_apply, hmargin, String.append_assoc, String.append_assoc]
  exact (localText_cases decl).imp (congrArg _) (congrArg _)

theorem forwards_of_wraps {signature : NativeFunction → Signature} {f : NativeFunction}
    {d : Definition} (h : WrapsFunction signature s f d) (hbalanced : Balanced d.body) :
    Forwards (implName s f) (paramDecls s f.params) f (linesAt 1 d.body) := by
  obtain ⟨-, -, texts, chunks, tail, hbody, htexts, htail, hall⟩ := h
  let locals := (paramDecls s f.params).map localText
  have hlocals : (f.params.flatMap fun p => valueLocals s p.name p.type) = locals := by
    simp only [locals, paramDecls, valueLocals, List.map_flatMap]
  have hnonempty : ∀ t ∈ locals, t ≠ "" := by
    intro t ht
    obtain ⟨decl, -, rfl⟩ := List.mem_map.mp ht
    simp [localText]
  have hcall : callText s f ≠ "" := by simp [callText]
  obtain ⟨lines, hlines, huses⟩ := exists_chunks hall (fun p chunk n h => h.usesIn_plain n) 1
  refine ⟨linesAt 1 (texts.map Step.line), locals.map (margin 1 ++ ·), lines,
    linesAt (indentAfter 1 chunks.flatten) tail, ?_, forall₂_locals _, htexts.usesIn 1,
    htail.usesIn _, huses⟩
  rw [hbody] at hbalanced ⊢
  rw [linesAt_concat hcall hbalanced, hlocals, List.map_append]
  simp only [linesAt_append, indentAfter_append, indentAfter_map_line, hlines,
    linesAt_map_line hnonempty]
  rfl

theorem text_signature (signature : Signature) :
    signature.text = (if signature.isStatic then "static " else "")
      ++ headText signature.returns signature.name signature.params := by
  simp only [Signature.text, headText, String.append_assoc]

theorem text_implSignature (returns : String) (s : Surface) (f : NativeFunction) :
    (implSignature returns s f).text =
      headText returns (implName s f) ("BridgeEnv *env" :: paramDecls s f.params) := by
  rw [text_signature]
  exact String.empty_append

theorem implName_cases (s : Surface) (f : NativeFunction) :
    implName s f = ident f.name ∨ implName s f = ident f.name ++ "_" ++ Text.decimal f.arity := by
  rw [implName]
  split
  · exact .inr rfl
  · exact .inl rfl

/-! ## Headers -/

theorem isDeclaration_text {signature : Signature} (hstatic : signature.isStatic = false)
    (h : IsDeclaration signature.returns) : IsDeclaration signature.text := by
  rw [text_signature, hstatic, if_neg Bool.false_ne_true, String.empty_append, headText]
  exact ((((h.append _).append _).append _).append _).append _

/-- Declarations under a title. -/
def sectionLines (p : String × List String) : List String :=
  ("/* " ++ p.1 ++ " */") :: p.2 ++ [""]

theorem title_inj {title title' : String} (h : "/* " ++ title ++ " */" = "/* " ++ title' ++ " */") :
    title = title' := by
  have hlist := congrArg String.toList h
  simp only [String.toList_append, List.append_assoc, List.append_cancel_left_eq,
    List.append_cancel_right_eq] at hlist
  exact String.toList_inj.mp hlist

theorem under_append {title : String} {lines : List String}
    (h : ∀ line ∈ lines, line ≠ "/* " ++ title ++ " */") (rest : List String) :
    under title (lines ++ rest) = under title rest := by
  rw [under, List.dropWhile_append_of_pos fun line hline => decide_eq_true (h line hline), under]

/-- What is found in a section: its declarations, or those behind it. -/
theorem under_section (title : String) {p : String × List String}
    (h : ∀ line ∈ p.2, IsDeclaration line) (rest : List String) :
    under title (sectionLines p ++ rest) = if p.1 = title then p.2 else under title rest := by
  split
  · rename_i htitle
    subst htitle
    have hblock : ∀ line ∈ p.2, decide (line ≠ "") :=
      fun line hline => decide_eq_true (h line hline).ne_empty
    rw [under, sectionLines, List.cons_append, List.cons_append,
      List.dropWhile_cons_of_neg (by simp), List.drop_succ_cons, List.drop_zero, List.append_assoc,
      List.takeWhile_append_of_pos hblock, List.singleton_append,
      List.takeWhile_cons_of_neg (by simp), List.append_nil]
  · rename_i htitle
    refine under_append ?_ rest
    refine List.forall_mem_cons.mpr ⟨fun heq => htitle (title_inj heq), ?_⟩
    exact List.forall_mem_append.mpr ⟨fun line hline => (h line hline).ne_title title,
      List.forall_mem_singleton.mpr (by simp)⟩

theorem under_sections (title : String) {sections : List (String × List String)}
    (h : ∀ p ∈ sections, ∀ line ∈ p.2, IsDeclaration line) (rest : List String) :
    under title (sections.flatMap sectionLines ++ rest) =
      match sections.find? (·.1 = title) with
      | some p => p.2
      | none => under title rest := by
  induction sections with
  | nil => rfl
  | cons p sections ih =>
    rw [List.forall_mem_cons] at h
    rw [List.flatMap_cons, List.append_assoc, under_section title h.1, ih h.2, List.find?_cons]
    by_cases htitle : p.1 = title
    · rw [if_pos htitle, decide_eq_true htitle]
    · rw [if_neg htitle, decide_eq_false htitle]

/-- A section that is left out when there is nothing in it. -/
def optionalSection (title : String) (block : List String) : List (String × List String) :=
  if block.isEmpty then [] else [(title, block)]

/-- The prototypes of some signatures, as lines. -/
def prototypeLines (signatures : List Signature) : List String := signatures.map (·.text ++ ";")

def functionSections (returns : String) (s : Surface) : List (String × List String) :=
  if s.functions.isEmpty then []
  else
    [("native implementations", prototypeLines (s.functions.map (implSignature returns s))),
      ("result accessors", prototypeLines (s.functions.flatMap fun f =>
        f.results.map (accessorSignature returns s f)))]

/-- The declarations of a header, title by title. -/
def headerSections (flavor : Flavor) (s : Surface) : List (String × List String) :=
  functionSections flavor.returns s
    ++ optionalSection "messages" (prototypeLines (s.sends.toList.map (sendSignature s)))
    ++ optionalSection "lifecycle callbacks" (prototypeLines (s.callbacks.map callbackSignature))
    ++ optionalSection "runtime entry points" (prototypeLines flavor.entryPoints)

theorem lines_prototypes (role : α → Role) (signature : α → Signature) (xs : List α) :
    (xs.map fun x => Item.prototype (role x) (signature x)).flatMap Item.lines =
      prototypeLines (xs.map signature) := by
  rw [List.flatMap_map, prototypeLines, List.map_map]
  exact List.map_eq_flatMap.symm

theorem lines_titled (title : String) (role : α → Role) (signature : α → Signature) (xs : List α) :
    (titled title (xs.map fun x => Item.prototype (role x) (signature x))).flatMap Item.lines =
      (optionalSection title (prototypeLines (xs.map signature))).flatMap sectionLines := by
  have hempty : (xs.map fun x => Item.prototype (role x) (signature x)).isEmpty =
      (prototypeLines (xs.map signature)).isEmpty := by
    simp [prototypeLines, List.isEmpty_map]
  rw [titled, optionalSection, hempty]
  split
  · rfl
  · rw [List.flatMap_append, List.flatMap_cons, lines_prototypes, List.flatMap_singleton,
      List.flatMap_singleton]
    rfl

theorem lines_prototypeItems (flavor : Flavor) (s : Surface) :
    (prototypeItems flavor s).flatMap Item.lines =
      (headerSections flavor s).flatMap sectionLines := by
  have haccessors : (accessorPrototypes flavor.returns s).flatMap Item.lines =
      prototypeLines (s.functions.flatMap fun f =>
        f.results.map (accessorSignature flavor.returns s f)) := by
    rw [accessorPrototypes, List.flatMap_assoc]
    simp only [lines_prototypes, prototypeLines, List.map_flatMap]
  have hfunctions : (functionItems flavor.returns s).flatMap Item.lines =
      (functionSections flavor.returns s).flatMap sectionLines := by
    rw [functionItems, functionSections]
    split
    · rfl
    · simp only [List.flatMap_append, List.flatMap_cons, List.flatMap_nil, List.append_nil,
        haccessors, implPrototypes, lines_prototypes, sectionLines, List.cons_append,
        List.append_assoc]
      rfl
  rw [prototypeItems, headerSections]
  simp only [List.flatMap_append, hfunctions, lines_titled]
  congr 1
  have hentries := lines_titled "runtime entry points" (fun _ => Role.entry) id flavor.entryPoints
  rw [List.map_id] at hentries
  exact hentries

/-- What a flavor adds to a header starts no comment. -/
structure Flavor.Declares (flavor : Flavor) : Prop where
  returns : IsDeclaration flavor.returns
  entryPoints : ∀ e ∈ flavor.entryPoints, IsDeclaration e.text

theorem Flavor.Declares.sections (h : flavor.Declares) (s : Surface) :
    ∀ p ∈ headerSections flavor s, ∀ line ∈ p.2, IsDeclaration line := by
  have hlines {signatures : List Signature} (h : ∀ e ∈ signatures, IsDeclaration e.text) :
      ∀ line ∈ prototypeLines signatures, IsDeclaration line := by
    intro line hline
    obtain ⟨e, he, rfl⟩ := List.mem_map.mp hline
    exact (h e he).append ";"
  have hint : IsDeclaration "int" ∧ IsDeclaration "void" := ⟨rfl, rfl⟩
  have hoptional (title : String) {block : List String} (h : ∀ line ∈ block, IsDeclaration line) :
      ∀ p ∈ optionalSection title block, ∀ line ∈ p.2, IsDeclaration line := by
    intro p hp
    rw [optionalSection] at hp
    split at hp
    · exact (List.not_mem_nil hp).elim
    · rw [List.mem_singleton.mp hp]
      exact h
  have himpls : ∀ e ∈ s.functions.map (implSignature flavor.returns s), IsDeclaration e.text :=
    List.forall_mem_map.mpr fun f _ => isDeclaration_text rfl h.returns
  have haccessors : ∀ e ∈ s.functions.flatMap fun f =>
      f.results.map (accessorSignature flavor.returns s f), IsDeclaration e.text := by
    intro e he
    obtain ⟨f, -, he⟩ := List.mem_flatMap.mp he
    obtain ⟨c, -, rfl⟩ := List.mem_map.mp he
    exact isDeclaration_text rfl h.returns
  have hmessages : ∀ e ∈ s.sends.toList.map (sendSignature s), IsDeclaration e.text :=
    List.forall_mem_map.mpr fun c _ => isDeclaration_text rfl hint.1
  have hcallbacks : ∀ e ∈ s.callbacks.map callbackSignature, IsDeclaration e.text := by
    refine List.forall_mem_map.mpr fun c _ => ?_
    rw [callbackSignature]
    cases c.hook with
    | unload => exact isDeclaration_text rfl hint.2
    | _ => exact isDeclaration_text rfl hint.1
  have hfunctions : ∀ p ∈ functionSections flavor.returns s, ∀ line ∈ p.2, IsDeclaration line := by
    rw [functionSections]
    split
    · exact fun p hp => (List.not_mem_nil hp).elim
    · exact List.forall_mem_cons.mpr ⟨hlines himpls, List.forall_mem_singleton.mpr
        (hlines haccessors)⟩
  rw [headerSections]
  exact List.forall_mem_append.mpr ⟨List.forall_mem_append.mpr ⟨List.forall_mem_append.mpr
    ⟨hfunctions, hoptional _ (hlines hmessages)⟩, hoptional _ (hlines hcallbacks)⟩,
    hoptional _ (hlines h.entryPoints)⟩

/-! ### Types -/

/-- The lines of a group that starts with no comment. -/
theorem lines_group {named : Prop} {head tail : String} {body : List Step}
    (h : (Item.group head body tail).Neat named) (hhead : IsDeclaration head) :
    ∀ line ∈ (Item.group head body tail).lines, IsDeclaration line := by
  have hclose : IsDeclaration "\x7d" := rfl
  rw [Item.lines, Item.steps, lines_blockWith h.1 h.2.1, List.cons_append, List.forall_mem_cons,
    List.forall_mem_append, List.forall_mem_singleton]
  exact ⟨hhead.append _,
    fun line hline => isDeclaration_of_isIndented (h.2.1.indented line hline).1, hclose.append tail⟩

theorem lines_typeItems (s : Surface) :
    ∀ line ∈ (typeItems s).flatMap Item.lines, line = "" ∨ IsDeclaration line := by
  have hblank : ∀ line ∈ Item.blank.lines, line = "" ∨ IsDeclaration line :=
    List.forall_mem_singleton.mpr (.inl rfl)
  have hword : IsDeclaration "typedef enum " ∧ IsDeclaration "struct " ∧
      IsDeclaration "typedef struct " := ⟨rfl, rfl, rfl⟩
  -- each type is a group with a blank line behind it
  have hgroup {items : List Item} {head tail : String} {body : List Step}
      (hitems : items = [.group head body tail, .blank]) (hneat : NeatItems s.Named items)
      (hhead : IsDeclaration head) :
      ∀ item ∈ items, ∀ line ∈ item.lines, line = "" ∨ IsDeclaration line := by
    subst hitems
    refine List.forall_mem_cons.mpr
      ⟨fun line hline => .inr ?_, List.forall_mem_singleton.mpr hblank⟩
    exact lines_group (hneat _ List.mem_cons_self) hhead line hline
  have henums : ∀ item ∈ s.enums.flatMap enumItems, ∀ line ∈ item.lines,
      line = "" ∨ IsDeclaration line := by
    intro item hitem
    obtain ⟨e, -, hitem⟩ := List.mem_flatMap.mp hitem
    exact hgroup rfl (neat_enumItems e) ((hword.1.append _).append _) item hitem
  have hstructs : ∀ item ∈ s.structs.flatMap (structItems s), ∀ line ∈ item.lines,
      line = "" ∨ IsDeclaration line := by
    intro item hitem
    obtain ⟨d, hd, hitem⟩ := List.mem_flatMap.mp hitem
    exact hgroup rfl (neat_structItems hd) ((hword.2.1.append _).append _) item hitem
  have hforward : ∀ item ∈ s.structs.map structName, ∀ line ∈ item.lines,
      line = "" ∨ IsDeclaration line := by
    refine List.forall_mem_map.mpr fun d _ => List.forall_mem_singleton.mpr (.inr ?_)
    exact (((hword.2.2.append _).append _).append _).append _
  intro line hline
  obtain ⟨item, hitem, hline⟩ := List.mem_flatMap.mp hline
  rw [typeItems] at hitem
  rcases List.mem_append.mp hitem with hitem | hitem
  · exact henums item hitem line hline
  · split at hitem
    · exact (List.not_mem_nil hitem).elim
    · rcases List.mem_append.mp hitem with hitem | hitem
      · exact hforward item hitem line hline
      · rcases List.mem_cons.mp hitem with rfl | hitem
        · exact hblank line hline
        · exact hstructs item hitem line hline

/-- Of a header, only types stand in braces. -/
theorem braced_headerCode (flavor : Flavor) (name : String) (s : Surface) :
    (headerCode flavor name s).flatMap Item.braced =
      (s.enums.flatMap fun e => (enumItems e).flatMap Item.braced)
        ++ s.structs.flatMap fun d => (structItems s d).flatMap Item.braced := by
  have hprototypes {α : Type} (role : α → Role) (signature : α → Signature) (xs : List α) :
      (xs.map fun x => Item.prototype (role x) (signature x)).flatMap Item.braced = [] := by
    rw [List.flatMap_map]
    exact List.flatMap_eq_nil_iff.mpr fun x _ => rfl
  have htitled (title : String) (items : List Item) :
      (titled title items).flatMap Item.braced = items.flatMap Item.braced := by
    rw [titled]
    split
    · rename_i hempty
      rw [List.isEmpty_iff.mp hempty]
    · simp [Item.braced]
  have haccessors : (accessorPrototypes flavor.returns s).flatMap Item.braced = [] := by
    rw [accessorPrototypes, List.flatMap_assoc]
    exact List.flatMap_eq_nil_iff.mpr fun f _ => hprototypes _ _ _
  have hfunctions : (functionItems flavor.returns s).flatMap Item.braced = [] := by
    rw [functionItems]
    split
    · rfl
    · simp [implPrototypes, hprototypes, haccessors, Item.braced]
  have htypes : (typeItems s).flatMap Item.braced =
      (s.enums.flatMap fun e => (enumItems e).flatMap Item.braced)
        ++ s.structs.flatMap fun d => (structItems s d).flatMap Item.braced := by
    have hforward : (s.structs.map structName).flatMap Item.braced = [] := by
      rw [List.flatMap_map]
      exact List.flatMap_eq_nil_iff.mpr fun d _ => rfl
    rw [typeItems, List.flatMap_append, List.flatMap_assoc]
    congr 1
    split
    · rename_i hempty
      rw [List.isEmpty_iff.mp hempty]
      rfl
    · rw [List.flatMap_append, hforward, List.flatMap_cons, List.flatMap_assoc]
      rfl
  have hall : (prototypeItems flavor s).flatMap Item.braced = [] := by
    simp only [prototypeItems, List.flatMap_append, htitled, hprototypes, hfunctions,
      List.append_nil]
  simp only [headerCode, List.flatMap_append, List.flatMap_cons, List.flatMap_nil, htypes, hall,
    Item.braced, List.nil_append, List.append_nil]

/-! ### The whole header -/

theorem front_headerFront (h : flavor.Lines) (name : String) (s : Surface) :
    ∀ line ∈ (headerFront flavor name s).flatMap Item.lines, IsFront (frontNames name s) line := by
  let fence := includeGuard name flavor.backend
  have hmark {word : String} (hword : IsDeclaration word) (hfeed : Feedless word) :
      IsFront (frontNames name s) (word ++ fence) := by
    have hlast : fence.toList.getLast?.any (· ≠ '\x7b') := by
      simp only [fence, includeGuard, upper, String.toList_ofList]
      rw [String.toList_append, List.map_append, List.getLast?_append]
      rfl
    exact .append hword hlast fun _ => hfeed.append (feedless_includeGuard name flavor.backend)
  have hguard : IsFront (frontNames name s) ("#ifndef " ++ fence) ∧
      IsFront (frontNames name s) ("#define " ++ fence) :=
    ⟨hmark rfl (.of_check rfl), hmark rfl (.of_check rfl)⟩
  have hstdint : IsFront (frontNames name s) "#include <stdint.h>" :=
    .of_isPlain rfl (by decide) fun _ => .of_check rfl
  have hruntime : IsFront (frontNames name s) ("#include <" ++ flavor.runtimeHeader ++ ">") := by
    have hstart : IsDeclaration "#include <" := rfl
    have := h.runtimeHeader.feeds
    exact .append (hstart.append _) (by decide) fun _ => .of_check rfl
  have hstate : ∀ line ∈ (stateItems s).flatMap Item.lines, IsFront (frontNames name s) line := by
    rw [stateItems]
    split
    · rename_i state _
      have hstart : IsDeclaration "typedef struct " := rfl
      have htype : IsFront (frontNames name s)
          ("typedef struct " ++ ident state ++ " " ++ ident state ++ ";") :=
        .append (((hstart.append _).append _).append _) (by decide) fun _ => .of_check rfl
      exact List.forall_mem_cons.mpr ⟨htype, List.forall_mem_singleton.mpr (front_blank _)⟩
    · exact fun line hline => (List.not_mem_nil hline).elim
  have hheader : IsFront (frontNames name s) ("#include \"" ++ userHeaderPath name ++ "\"") := by
    refine front_include fun hnames => ?_
    have := (hnames name List.mem_cons_self).feeds
    unfold userHeaderPath
    exact .of_check rfl
  have hfront : (headerFront flavor name s).flatMap Item.lines =
      (banner flavor.backend name s).flatMap Item.lines
        ++ (["#ifndef " ++ fence, "#define " ++ fence, "", "#include <stdint.h>",
          "#include <" ++ flavor.runtimeHeader ++ ">", ""]
        ++ ((stateItems s).flatMap Item.lines
          ++ ["#include \"" ++ userHeaderPath name ++ "\""])) := by
    simp only [headerFront, List.flatMap_append, List.append_assoc]
    rfl
  rw [hfront]
  simp only [List.forall_mem_append, List.forall_mem_cons, List.not_mem_nil, false_implies,
    implies_true, and_true]
  exact ⟨front_banner h.backend name s,
    ⟨hguard.1, hguard.2, front_blank _, hstdint, hruntime, front_blank _⟩, hstate, hheader⟩

/-- The lines of a header. -/
def headerLines (flavor : Flavor) (name : String) (s : Surface) : List String :=
  (headerFront flavor name s).flatMap Item.lines ++ (headerCode flavor name s).flatMap Item.lines

/-- Functions are declared under their titles. -/
theorem under_headerLines {title : String} (htitle : title ∈ functionTitles) (hlines : flavor.Lines)
    (h : flavor.Declares) (name : String) (s : Surface) :
    under title (headerLines flavor name s) =
      match (headerSections flavor s).find? (·.1 = title) with
      | some p => p.2
      | none => [] := by
  have hend : IsDeclaration "#endif /* " := rfl
  have htypes : ∀ line ∈ "" :: (typeItems s).flatMap Item.lines,
      line ≠ "/* " ++ title ++ " */" := by
    refine List.forall_mem_cons.mpr ⟨by simp, fun line hline => ?_⟩
    rcases lines_typeItems s line hline with rfl | hline
    · simp
    · exact hline.ne_title title
  have hlast : under title ["#endif /* " ++ includeGuard name flavor.backend ++ " */"] = [] := by
    have hline := ((hend.append (includeGuard name flavor.backend)).append " */").ne_title title
    exact under_append (List.forall_mem_singleton.mpr hline) []
  have hcode : (headerCode flavor name s).flatMap Item.lines =
      ("" :: (typeItems s).flatMap Item.lines) ++ ((headerSections flavor s).flatMap sectionLines
        ++ ["#endif /* " ++ includeGuard name flavor.backend ++ " */"]) := by
    rw [← lines_prototypeItems, ← List.append_assoc]
    simp only [headerCode, List.flatMap_append, List.flatMap_cons, List.flatMap_nil]
    rfl
  have hfront : ∀ line ∈ (headerFront flavor name s).flatMap Item.lines,
      line ≠ "/* " ++ title ++ " */" :=
    fun line hline => (front_headerFront hlines name s line hline).title title htitle
  rw [headerLines, under_append hfront, hcode, under_append htypes,
    under_sections title (h.sections s), hlast]

theorem find?_optionalSection (title title' : String) (block : List String) :
    (optionalSection title' block).find? (·.1 = title) =
      if title' = title ∧ ¬block.isEmpty then some (title', block) else none := by
  rw [optionalSection]
  by_cases hempty : block.isEmpty
  · simp [hempty]
  · by_cases htitle : title' = title
    · simp [hempty, htitle]
    · simp [hempty, htitle]

/-- The prototypes of implementations, of accessors and of messages, each under its title. -/
theorem under_functions (hlines : flavor.Lines) (h : flavor.Declares) (name : String)
    (s : Surface) :
    under "native implementations" (headerLines flavor name s) =
        prototypeLines (s.functions.map (implSignature flavor.returns s)) ∧
      under "result accessors" (headerLines flavor name s) =
        prototypeLines (s.functions.flatMap fun f =>
          f.results.map (accessorSignature flavor.returns s f)) ∧
      under "messages" (headerLines flavor name s) =
        prototypeLines (s.sends.toList.map (sendSignature s)) := by
  rw [under_headerLines (by decide) hlines h, under_headerLines (by decide) hlines h,
    under_headerLines (by decide) hlines h]
  simp only [headerSections, functionSections, List.find?_append, find?_optionalSection]
  cases hfunctions : s.functions with
  | nil =>
    cases hmessages : s.sends with
    | none => simp [prototypeLines]
    | some c => simp [prototypeLines]
  | cons f fs =>
    cases hmessages : s.sends with
    | none => simp [prototypeLines]
    | some c => simp [prototypeLines]

theorem isFile_header (h : flavor.Lines) (name : String) (s : Surface) :
    IsFile (frontNames name s) (Item.render (headerItems flavor name s))
        (headerLines flavor name s) ∧
      braced (headerLines flavor name s) = (headerCode flavor name s).flatMap Item.braced := by
  rw [headerItems_eq]
  exact isFile_of_items (even_headerFront flavor name s) (front_headerFront h name s)
    (neat_headerCode h name s)

/-- The fields of structs are the declarations of their members. -/
theorem forall₂_fields (h : flavor.Lines) (name : String) (s : Surface) :
    List.Forall₂
      (fun d b => b.head = "struct " ++ ident d.name ++ "_t" ∧
        ∃ decls, b.body = decls.map (fun decl => "  " ++ decl ++ ";") ∧
          Declare decls (d.members.flatMap fun m => cNames m.name m.type))
      s.structs ((braced (headerLines flavor name s)).drop s.enums.length) := by
  have henums : (s.enums.flatMap fun e => (enumItems e).flatMap Item.braced).length =
      s.enums.length := by
    simp [enumItems, Item.braced]
  have hstructs : (s.structs.flatMap fun d => (structItems s d).flatMap Item.braced) =
      s.structs.map fun d => Braced.mk ("struct " ++ ident d.name ++ "_t")
        (linesAt 1 ((d.members.flatMap fun m => valueDecls s m.name m.type).map
          fun decl => .line (decl ++ ";"))) :=
    List.map_eq_flatMap.symm
  rw [(isFile_header h name s).2, braced_headerCode, ← henums, List.drop_left, hstructs,
    List.forall₂_map_right_iff, List.forall₂_same]
  intro d _
  refine ⟨rfl, d.members.flatMap fun m => valueDecls s m.name m.type, ?_,
    declare_flatMap s Member.name Member.type d.members⟩
  let texts := (d.members.flatMap fun m => valueDecls s m.name m.type).map (· ++ ";")
  have hnonempty : ∀ t ∈ texts, t ≠ "" := List.forall_mem_map.mpr fun decl _ => by simp
  have hlines := linesAt_map_line hnonempty 1
  simp only [texts, List.map_map] at hlines
  exact hlines.trans (List.map_congr_left fun decl _ => (String.append_assoc ..).symm)

/-! ## Sources -/

/-- A function in the text of a source. -/
def Definition.braced (d : Definition) : Braced := ⟨d.signature.text, linesAt 1 d.body⟩

def Item.isGroup : Item → Bool
  | group _ _ _ => true
  | _ => false

/-- Only functions stand in braces. -/
def NoGroups (items : List Item) : Prop := items.all (!·.isGroup)

namespace NoGroups
variable {items items' : List Item}

theorem append (h : NoGroups items) (h' : NoGroups items') : NoGroups (items ++ items') := by
  rw [NoGroups, List.all_append, h, h', Bool.and_self]

/-- What stands in braces are the definitions. -/
theorem braced (h : NoGroups items) :
    items.flatMap Item.braced = (items.filterMap Item.definition?).map Definition.braced := by
  induction items with
  | nil => rfl
  | cons item items ih =>
    rw [NoGroups, List.all_cons, Bool.and_eq_true] at h
    rw [List.flatMap_cons, ih h.2]
    cases item with
    | group => cases h.1
    | raw | blank | prototype | definition => rfl

end NoGroups

theorem balanced_definitions {named : Prop} {items : List Item} (h : NeatItems named items) :
    ∀ d ∈ items.filterMap Item.definition?, Balanced d.body := by
  intro d hd
  obtain ⟨item, hitem, hd⟩ := List.mem_filterMap.mp hd
  have hneat := h item hitem
  cases item with
  | definition role signature body =>
    cases hd
    exact hneat.2.balanced
  | raw | blank | prototype | group => cases hd

/-- What relates to one list and then to another is in two parts. -/
theorem exists_of_forall₂_append {α β : Type} {R : α → β → Prop} {xs xs' : List α} {ys : List β}
    (h : List.Forall₂ R (xs ++ xs') ys) :
    ∃ zs zs', ys = zs ++ zs' ∧ List.Forall₂ R xs zs ∧ List.Forall₂ R xs' zs' := by
  induction xs generalizing ys with
  | nil => exact ⟨[], ys, rfl, .nil, h⟩
  | cons x xs ih =>
    cases h with
    | cons hxy hrest =>
      obtain ⟨zs, zs', rfl, hzs, hzs'⟩ := ih hrest
      exact ⟨_ :: zs, zs', rfl, .cons hxy hzs, hzs'⟩

theorem makes_of_result {c : Clause} {role : Role} {signature : Signature} {d : Definition}
    (h : MakesResult s (c, role, signature) d) {head : List String → String}
    (hhead : signature.text = head (clauseDecls s c)) : Makes head c d.braced where
  head := by
    refine ⟨clauseDecls s c, ?_, declare_flatMap s ResultItem.name ResultItem.type c.values⟩
    rw [Definition.braced, (Prod.mk.inj h.1).2, hhead]
  body := h.2.2.partsIn (fun item chunk n hitem => hitem.usesIn n) 1

namespace Generator
variable {g : Generator} {k : Convention} {s : Surface}

/-- The texts of a backend are as its convention says. -/
structure Follows (g : Generator) (k : Convention) : Prop where
  returns : g.flavor.returns = k.returns
  lines : g.flavor.Lines
  declares : g.flavor.Declares
  includes : ∀ text ∈ g.includes, ∀ names, IsFront names text
  helpers : ∀ name, ((g.helpers name).1.text, (g.helpers name).2.text) = k.helpers (ident name)
  signature : ∀ f, (g.signature f).text = "static " ++ headText k.returns
    (k.stem ++ ident f.name ++ "_" ++ Text.decimal f.arity) k.request
  groups : ∀ s n₁ n₂ n₃, NoGroups (g.defined s n₁ n₂ n₃)
  last : ∀ s, ((g.last s).flatMap Item.braced).map (·.head) = k.last

namespace Follows
variable (h : g.Follows k)
include h

theorem front (name : String) (s : Surface) :
    ∀ line ∈ (g.front s name).flatMap Item.lines, IsFront (frontNames name s) line := by
  have hinclude : IsFront (frontNames name s) ("#include \"" ++ (name ++ ".h") ++ "\"") := by
    refine front_include fun hnames => ?_
    have := (hnames name List.mem_cons_self).feeds
    exact .of_check rfl
  rw [← String.append_assoc, String.append_assoc] at hinclude
  have hincludes : (g.includes.map Item.raw).flatMap Item.lines = g.includes := by
    rw [List.flatMap_map]
    exact List.flatMap_singleton' _
  rw [Generator.front, List.flatMap_append, List.flatMap_append, hincludes, List.forall_mem_append,
    List.forall_mem_append]
  exact ⟨front_banner h.lines.backend name s, fun text htext => h.includes text htext _,
    List.forall_mem_singleton.mpr hinclude⟩

/-- What stands in the text of a source: the functions, and what stands behind them. -/
theorem exists_source (hneat : g.NeatSource s) (name : String) :
    ∃ source n₁ n₂ n₃, IsFile (frontNames name s) (Item.render (g.source s name)) source ∧
      braced source = ((g.defined s n₁ n₂ n₃).filterMap Item.definition?).map Definition.braced
        ++ (g.last s).flatMap Item.braced := by
  obtain ⟨n₁, n₂, n₃, hsource⟩ := g.exists_defined s name
  have heven := even_source hneat name
  rw [hsource] at heven ⊢
  have hfile := isFile_of_items (fun item hitem => heven item (List.mem_append_left _ hitem))
    (h.front name s) (hneat n₁ n₂ n₃)
  refine ⟨_, n₁, n₂, n₃, hfile.1, hfile.2.trans ?_⟩
  rw [← (h.groups s n₁ n₂ n₃).braced, ← List.flatMap_append]
  rfl

theorem wraps {f : NativeFunction} {d : Definition} (hd : WrapsFunction g.signature s f d)
    (hbalanced : Balanced d.body) :
    Wraps k f ((implSignature k.returns s f).text ++ ";") d.braced where
  head := by rw [Definition.braced, hd.2.1, h.signature]
  body := ⟨implName s f, paramDecls s f.params, implName_cases s f,
    by rw [text_implSignature], declare_flatMap s Param.name Param.type f.params,
    forwards_of_wraps hd hbalanced⟩

/-- The files of a surface agree, whatever else is known of the wrappers. -/
theorem exists_agree (hneat : g.NeatSource s) (hwrites : g.Writes s)
    {R : NativeFunction → Definition → Prop} (hR : ∀ f d, R f d → WrapsFunction g.signature s f d)
    (hwrapper : ∀ f n,
      List.Forall₂ R [f] (((g.wrapper s f).run n).1.filterMap Item.definition?)) (name : String) :
    ∃ source o, IsFile (frontNames name s) (Item.render (g.source s name)) source ∧
      Agree k s (headerLines g.flavor name s) source o ∧ o.last = (g.last s).flatMap Item.braced ∧
      List.Forall₂ (fun f d => ∃ d', R f d' ∧ d = d'.braced) s.functions o.wrappers := by
  obtain ⟨source, n₁, n₂, n₃, hfile, hsource⟩ := h.exists_source hneat name
  have hresults := hwrites.results n₁ n₂
  have hwrappers := forall₂_wrappers hwrapper n₃
  have hstructs := hwrites.structs 0
  obtain ⟨accessors, messages, hparts, haccessors, hmessages⟩ := exists_of_forall₂_append hresults
  obtain ⟨himpls, hdeclared, hsent⟩ := under_functions h.lines h.declares name s
  -- accessors by function and clause
  let pairs := s.functions.flatMap fun f => f.results.map fun c => (f, c)
  have hpairs : (s.functions.flatMap fun f => f.results.flatMap fun c =>
      [accessorHead g.flavor.returns s f c]) =
      pairs.map fun p => accessorHead g.flavor.returns s p.1 p.2 := by
    simp only [pairs, List.map_flatMap, List.map_map]
    exact List.flatMap_congr fun f _ => List.map_eq_flatMap.symm
  have hsends : (s.sends.toList.flatMap fun c => [sendHead s c]) =
      s.sends.toList.map (sendHead s) := List.map_eq_flatMap.symm
  rw [hpairs, List.forall₂_map_left_iff] at haccessors
  rw [hsends, List.forall₂_map_left_iff] at hmessages
  have hheads {α : Type} {xs : List α} {ds : List Definition} {R : α → Definition → Prop}
      {g : α → Signature} (hall : List.Forall₂ R xs ds) (hR : ∀ x d, R x d → d.signature = g x) :
      prototypeLines (xs.map g) = (ds.map Definition.braced).map (·.head ++ ";") := by
    rw [prototypeLines, List.map_map, List.map_map]
    exact map_eq_of_forall₂ hall fun x d h => by rw [Function.comp_apply, ← hR x d h]; rfl
  let enums := (s.enums.flatMap g.enum).filterMap Item.definition?
  let structs := ((g.structs s).run 0).1.filterMap Item.definition?
  let wrappers := ((g.wrappers s).run n₃).1.filterMap Item.definition?
  refine ⟨source, ⟨enums.map Definition.braced, structs.map Definition.braced,
    accessors.map Definition.braced, messages.map Definition.braced,
    wrappers.map Definition.braced, (g.last s).flatMap Item.braced⟩, hfile, ?_, rfl, ?_⟩
  swap
  · exact List.forall₂_map_right_iff.mpr (hwrappers.imp fun f d h => ⟨d, h, rfl⟩)
  constructor
  · simp only [hsource, defined, List.filterMap_append, hparts, List.map_append, List.append_assoc,
      enums, structs, wrappers]
  · have htexts := congrArg (List.map Signature.text) hwrites.enums.1
    rw [List.map_map, List.map_flatMap] at htexts
    rw [List.map_map]
    refine htexts.trans (List.flatMap_congr fun e _ => ?_)
    rw [← h.helpers]
    rfl
  · exact h.last s
  · constructor
    · rw [hdeclared, ← hheads haccessors fun p d h => (Prod.mk.inj h.1).2]
      simp [pairs, List.map_flatMap, Function.comp_def]
    · rw [hsent, ← hheads hmessages fun c d h => (Prod.mk.inj h.1).2]
  · rw [List.forall₂_map_right_iff]
    refine haccessors.imp fun p d hd => makes_of_result hd ?_
    rw [text_signature, ← h.returns]
    exact String.empty_append
  · rw [List.forall₂_map_right_iff]
    refine hmessages.imp fun c d hd => makes_of_result hd ?_
    rw [text_signature]
    exact String.empty_append
  · rw [himpls, prototypeLines, List.length_map, List.length_map]
  · have hzip : s.functions.zip (prototypeLines (s.functions.map (implSignature k.returns s))) =
        s.functions.map fun f => (f, (implSignature k.returns s f).text ++ ";") := by
      rw [prototypeLines, List.map_map]
      exact List.map_prod_left_eq_zip.symm
    have hbalanced : ∀ d ∈ wrappers, Balanced d.body := by
      refine balanced_definitions fun item hitem => hneat n₁ n₂ n₃ item ?_
      exact List.mem_append_left _ (List.mem_cons_of_mem _ (List.mem_append_right _ hitem))
    have hall := ((List.forall₂_and_left _ _).mpr ⟨hbalanced, hwrappers.flip⟩).flip
    rw [himpls, h.returns, hzip, List.forall₂_map_left_iff, List.forall₂_map_right_iff]
    exact hall.imp fun f d hd => h.wraps (hR f d hd.2) hd.1
  · exact forall₂_fields h.lines name s
  · have hheads : (s.structs.flatMap fun d => [(d, "value.", (k.helpers (ident d.name)).1),
        (d, "out->", (k.helpers (ident d.name)).2)]) =
        (s.structs.flatMap (structHeads g.helpers)).map fun p => (p.1, p.2.1, p.2.2.text) := by
      rw [List.map_flatMap]
      refine List.flatMap_congr fun d _ => ?_
      rw [← h.helpers]
      rfl
    rw [hheads, List.forall₂_map_left_iff, List.forall₂_map_right_iff]
    exact hstructs.imp fun p d h => ⟨congrArg Signature.text (Prod.mk.inj h.1).2,
      h.2.partsIn (fun m chunk n hm => hm.usesIn n) 1⟩

end Follows

end Generator

end NativeInterface.C

namespace NativeInterface
open C

/-! ## The in-process backend -/

namespace Nif

def convention : Convention where
  returns := "BridgeTerm"
  helpers type :=
    ("static " ++ headText "BridgeTerm" ("make_" ++ type) ["BridgeEnv *env", type ++ " value"],
      "static " ++ headText "int" ("get_" ++ type)
        ["BridgeEnv *env", "BridgeTerm term", type ++ " *out"])
  stem := "export_"
  request := ["BridgeEnv *env", "int argc", "const BridgeTerm argv[]"]
  last := ["static BridgeFunc bridge_funcs[] ="]

theorem flavor_declares : flavor.Declares where
  returns := rfl
  entryPoints _ h := (List.not_mem_nil h).elim

/-- The export table in the text of a source. -/
def tableText (s : Surface) : Braced where
  head := "static BridgeFunc bridge_funcs[] ="
  body := linesAt 1 ((exportRows s).map (fun r => Step.line r.text)
    ++ [Step.line "\x7bNULL, 0, NULL, 0\x7d,"])

theorem follows : generator.Follows convention where
  returns := rfl
  lines := flavor_lines
  declares := flavor_declares
  includes := fun _ h => (List.not_mem_nil h).elim
  helpers _ := Prod.ext (text_signature _) (text_signature _)
  signature _ := text_signature _
  groups _ _ _ _ := Generator.defined_induction (by rfl) (fun _ _ => .append) (by rfl)
    (fun _ => by rfl) (fun _ => by rfl) (fun _ _ => by rfl) (fun _ _ _ => by rfl)
    (fun _ _ => by rfl) (fun _ _ _ => by rfl) _ _ _
  last _ := rfl

/-- A wrapper and what it subscripts. -/
theorem wrapper_reads (s : Surface) (f : NativeFunction) (n : Nat) :
    List.Forall₂ (fun f d => WrapsFunction exportSignature s f d ∧
        ReadsPlaces f.params.zipIdx (Step.subscripts d.body))
      [f] (((exportItems s f).run n).1.filterMap Item.definition?) := by
  obtain ⟨hwraps, -⟩ := List.forall₂_cons.mp ((writes s).wrapper f n)
  have hlocals : Step.subscripts (.line "(void)argc;"
      :: (f.params.flatMap fun p => valueLocals s p.name p.type).map Step.line) = [] := by
    refine Step.subscripts_of_notMem (List.forall_mem_cons.mpr ⟨by decide, ?_⟩)
    intro step hstep
    obtain ⟨text, htext, rfl⟩ := List.mem_map.mp hstep
    obtain ⟨p, -, hp⟩ := List.mem_flatMap.mp htext
    exact bracket_notMem_valueLocals s p.name p.type text hp
  have hcall : Step.subscripts [.line (callText s f)] = [] :=
    Step.subscripts_of_notMem (List.forall_mem_singleton.mpr (bracket_notMem_callText s f))
  refine .cons ⟨hwraps, ?_⟩ .nil
  change ReadsPlaces f.params.zipIdx (Step.subscripts (.line "(void)argc;"
      :: (f.params.flatMap fun p => valueLocals s p.name p.type).map Step.line
    ++ ((collect (fun x => decodeParam s x.1 x.2) f.params.zipIdx).run n).1
    ++ [Step.line (callText s f)]))
  rw [Step.subscripts_append, Step.subscripts_append, hlocals, hcall, List.nil_append,
    List.append_nil]
  exact readsPlaces_collect f.params.zipIdx n

/-- The files of a surface agree; the table stands last, and wrappers subscript the request. -/
theorem exists_agree (name : String) (s : Surface) :
    ∃ source o, IsFile (frontNames name s) (backend.source name s) source ∧
      Agree convention s (headerLines flavor name s) source o ∧ o.last = [tableText s] ∧
      List.Forall₂ (fun f d => ReadsPlaces f.params.zipIdx (d.body.flatMap subscriptsIn))
        s.functions o.wrappers := by
  obtain ⟨source, o, hfile, hagree, hlast, hreads⟩ :=
    follows.exists_agree (neat_source s) (writes s) (fun f d h => h.1) (wrapper_reads s) name
  rw [← sourceItems_eq] at hfile
  refine ⟨source, o, hfile, hagree, hlast, hreads.imp fun f d h => ?_⟩
  obtain ⟨d', h, rfl⟩ := h
  rw [Definition.braced, subscripts_linesAt]
  exact h.2

end Nif

/-! ## The out-of-process backend -/

namespace CNode

def convention : Convention where
  returns := "int"
  helpers type :=
    ("static " ++ headText "void" ("encode_" ++ type) ["BridgeBuffer *out", type ++ " value"],
      "static " ++ headText "int" ("decode_" ++ type)
        ["const char *buf", "int *index", type ++ " *out"])
  stem := "dispatch_"
  request := ["BridgeEnv *env", "const char *buf", "int *index"]
  last := ["int bridge_dispatch(BridgeEnv *env, const char *fun, int arity, const char *buf, "
      ++ "int *index)",
    "int main(int argc, char **argv)"]

theorem flavor_declares : flavor.Declares where
  returns := rfl
  entryPoints := by
    have hreturns : IsDeclaration "int" := rfl
    exact List.forall_mem_singleton.mpr (isDeclaration_text rfl hreturns)

theorem follows : generator.Follows convention where
  returns := rfl
  lines := flavor_lines
  declares := flavor_declares
  includes := List.forall_mem_singleton.mpr fun _ =>
    .of_isPlain rfl (by decide) fun _ => .of_check rfl
  helpers _ := Prod.ext (text_signature _) (text_signature _)
  signature _ := text_signature _
  groups _ _ _ _ := Generator.defined_induction (by rfl) (fun _ _ => .append) (by rfl)
    (fun _ => by rfl) (fun _ => by rfl) (fun _ _ => by rfl) (fun _ _ _ => by rfl)
    (fun _ _ => by rfl) (fun _ _ _ => by rfl) _ _ _
  last _ := rfl

/-- The files of a surface agree; the entry points stand last. -/
theorem exists_agree (name : String) (s : Surface) :
    ∃ source o, IsFile (frontNames name s) (backend.source name s) source ∧
      Agree convention s (headerLines flavor name s) source o ∧
      o.last = (dispatchItems s ++ [mainItem s]).flatMap Item.braced ∧
      List.Forall₂ (fun f d => ∃ d', WrapsFunction wrapperSignature s f d' ∧ d = d'.braced)
        s.functions o.wrappers := by
  have hagree :=
    follows.exists_agree (neat_source s) (writes s) (fun f d h => h) (writes s).wrapper name
  rwa [← sourceItems_eq] at hagree

end CNode

/-- **Header, accessors and wrappers agree**, for every surface and both backends. -/
theorem C.files_agree (name : String) (s : Surface) :
    (∃ header source o, IsFile (frontNames name s) (Nif.backend.header name s) header ∧
      IsFile (frontNames name s) (Nif.backend.source name s) source ∧
      Agree Nif.convention s header source o) ∧
    ∃ header source o, IsFile (frontNames name s) (CNode.backend.header name s) header ∧
      IsFile (frontNames name s) (CNode.backend.source name s) source ∧
      Agree CNode.convention s header source o := by
  constructor
  · obtain ⟨source, o, hfile, hagree, -⟩ := Nif.exists_agree name s
    exact ⟨_, source, o, (isFile_header Nif.flavor_lines name s).1, hfile, hagree⟩
  · obtain ⟨source, o, hfile, hagree, -⟩ := CNode.exists_agree name s
    exact ⟨_, source, o, (isFile_header CNode.flavor_lines name s).1, hfile, hagree⟩

end NativeInterface
