import NativeInterface.Proofs.Clauses
import NativeInterface.Proofs.Nesting
import NativeInterface.Proofs.Sections

/-!
# Hygiene of generated functions

In the scope of a generated function stand the names of its values, the lengths of those that are
lists, and variables of the generator: a few with fixed names, and for each list some with a number
that no list before it has. What every function declares is computed from its code for both
backends: the names of its values and the generator's own, no two of which are alike. So the names
in a function are all different if those of its values are, and if these avoid the generator's own
(`Reserved.Avoided`); likewise the fields of a struct. The names of the results of a clause and of
the members of a struct are checked when a surface is built, those of the arguments are not, and
nothing checks what they look like in C.
-/

namespace NativeInterface.C

/-! ## Functions and their values -/

/-- The names of the values of a clause, a list with its length. -/
def clauseNames (c : Clause) : List String := c.values.flatMap fun v => valueNames v.name v.type

def paramNames (f : NativeFunction) : List String :=
  f.params.flatMap fun p => valueNames p.name p.type

def memberNames (d : Struct) : List String := d.members.flatMap fun m => valueNames m.name m.type

/-- The parameters of a function and what its body declares. -/
def Definition.declared (d : Definition) : List String :=
  d.signature.declared ++ Step.declared d.body

/-- Of the names in a function these belong to values, and the others are the generator's own. -/
def Declares (fixed stems names declared : List String) : Prop :=
  ∃ own, declared.Perm (names ++ own) ∧ own.Nodup ∧
    ∀ name ∈ own, name ∈ fixed ∨ isNumbered stems name

/-- An identifier that is none of the generator's own. -/
def Avoids (fixed stems : List String) (name : String) : Prop :=
  name ∉ fixed ∧ ¬isNumbered stems name

instance (fixed stems : List String) (name : String) : Decidable (Avoids fixed stems name) :=
  inferInstanceAs (Decidable (_ ∧ _))

/-- The names of the values of a function may be declared beside the generator's own. -/
structure Clear (fixed stems names : List String) : Prop where
  nodup : names.Nodup
  avoids : ∀ name ∈ names, Avoids fixed stems name

/-- A function in which no name is declared twice. -/
structure Hygienic (fixed stems names declared : List String) : Prop where
  declares : Declares fixed stems names declared
  nodup : declared.Nodup

theorem Declares.hygienic {fixed stems names declared : List String}
    (h : Declares fixed stems names declared) (hclear : Clear fixed stems names) :
    Hygienic fixed stems names declared where
  declares := h
  nodup := by
    obtain ⟨own, hperm, hown, hreserved⟩ := h
    refine hperm.nodup_iff.mpr (List.nodup_append.mpr ⟨hclear.nodup, hown, ?_⟩)
    rintro name hname _ hmem rfl
    obtain ⟨hfixed, hnumbered⟩ := hclear.avoids name hname
    exact (hreserved name hmem).elim hfixed hnumbered

/-- A prototype declares a few parameters of its own in front of the values. -/
theorem Clear.hygienic_prototype {fixed stems names declared front : List String}
    (h : Clear fixed stems names) (hfront : front.Nodup ∧ front ⊆ fixed)
    (hdeclared : declared = front ++ names) : Hygienic fixed stems names declared := by
  refine Declares.hygienic ⟨front, ?_, hfront.1, fun w hw => .inl (hfront.2 hw)⟩ h
  rw [hdeclared]
  exact List.perm_append_comm

/-- The accessor of a clause, or the message, in its role. -/
def DeclaresResult (r : Reserved) (p : Clause × Role × Signature) (d : Definition) : Prop :=
  d.role = p.2.1 ∧ Declares (r.result p.2.1) r.encoding (clauseNames p.1) d.declared

def DeclaresWrapper (r : Reserved) (f : NativeFunction) (d : Definition) : Prop :=
  Declares r.wrapper r.decoding (paramNames f) d.declared

/-- Every function of a source declares what it should. -/
structure Generator.Declares (g : Generator) (r : Reserved) (s : Surface) : Prop where
  accessor : ∀ f c n, List.Forall₂ (DeclaresResult r) [accessorHead g.flavor.returns s f c]
    (((g.accessor s f c).run n).1.filterMap Item.definition?)
  send : ∀ c n, List.Forall₂ (DeclaresResult r) [sendHead s c]
    (((g.send s c).run n).1.filterMap Item.definition?)
  wrapper : ∀ f n, List.Forall₂ (DeclaresWrapper r) [f]
    (((g.wrapper s f).run n).1.filterMap Item.definition?)

/-- A function with variables of its own in front of and behind the values, and numbered ones. -/
theorem declares_of_fresh (front behind : List String)
    {stems names declared temporaries : List String} {n m : Nat}
    (hown : (front ++ behind).Nodup ∧ ∀ name ∈ front ++ behind, ¬isNumbered stems name)
    (h : Fresh stems n m temporaries)
    (hdeclared : declared = front ++ (names ++ (behind ++ temporaries))) :
    Declares (front ++ behind) stems names declared := by
  refine ⟨front ++ behind ++ temporaries, ?_, List.nodup_append.mpr ⟨hown.1, h.nodup, ?_⟩, ?_⟩
  · rw [hdeclared, List.append_assoc]
    exact List.perm_append_comm_assoc front names _
  · rintro name hname _ hmem rfl
    exact hown.2 name hname (h.isNumbered name hmem)
  · exact fun name hname => (List.mem_append.mp hname).imp_right (h.isNumbered name)

/-- A function that makes something out of its parameters, between a line that declares what is made
and one that returns it. -/
theorem declares_wrapped (role : Role) {signature : Signature} {first last : Step}
    {body : List Step} (front own inner : List String) {stems names temporaries : List String}
    {n m : Nat} (hown : (front ++ (own ++ inner)).Nodup ∧
      ∀ name ∈ front ++ (own ++ inner), ¬isNumbered stems name)
    (hsignature : signature.declared = front ++ names) (hfirst : Step.declared [first] = own)
    (hbody : Step.declared body = inner ++ temporaries) (hlast : Step.declared [last] = [])
    (hfresh : Fresh stems n m temporaries) :
    Declares (front ++ (own ++ inner)) stems names
      (Definition.declared ⟨role, signature, first :: body ++ [last]⟩) := by
  refine declares_of_fresh front (own ++ inner) hown hfresh ?_
  have hsteps : Step.declared ([first] ++ (body ++ [last])) = own ++ (inner ++ temporaries) := by
    rw [Step.declared_append, Step.declared_append, hfirst, hbody, hlast, List.append_nil]
  rw [Definition.declared, hsignature, List.append_assoc, List.append_assoc]
  exact congrArg (fun steps => front ++ (names ++ steps)) hsteps

/-- Parameters in front of values. -/
theorem declared_signature (s : Surface) {α : Type} (name : α → String) (type : α → Ty)
    (xs : List α) {signature : Signature} (front : List String) {names : List String}
    (hparams : signature.params = front ++ xs.flatMap fun x => valueDecls s (name x) (type x))
    (hfront : front.filterMap (fun param => (declaredIn param.toList).map String.ofList) = names) :
    signature.declared = names ++ xs.flatMap fun x => valueNames (name x) (type x) := by
  rw [Signature.declared, hparams, List.filterMap_append, hfront, declared_decls]

theorem declared_implSignature (returns : String) (s : Surface) (f : NativeFunction) :
    (implSignature returns s f).declared = ["env"] ++ paramNames f :=
  declared_signature s Param.name Param.type f.params ["BridgeEnv *env"] rfl (by decide)

theorem declared_accessorSignature (returns : String) (s : Surface) (f : NativeFunction)
    (c : Clause) : (accessorSignature returns s f c).declared = ["env"] ++ clauseNames c :=
  declared_signature s ResultItem.name ResultItem.type c.values ["BridgeEnv *env"] rfl (by decide)

theorem declared_sendSignature (s : Surface) (c : Clause) :
    (sendSignature s c).declared = ["env", "pid", "flags"] ++ clauseNames c :=
  declared_signature s ResultItem.name ResultItem.type c.values
    ["BridgeEnv *env", "BridgePid pid", "int flags"] rfl (by decide)

/-- The call of an implementation declares nothing. -/
theorem declared_callText (s : Surface) (f : NativeFunction) :
    Step.declared [.line (callText s f)] = [] := by
  have hfront : ∀ c ∈ "return ".toList ++ (implName s f).toList, isDeclChar c :=
    List.forall_mem_append.mpr ⟨List.all_eq_true.mp (by decide), (isIdent_implName s f).isDecl⟩
  have hcall : (callText s f).toList = "return ".toList ++ (implName s f).toList
      ++ '(' :: ((Text.join ", " (callArguments f)).toList ++ ");".toList) := by
    simp [callText]
  have hread : declaredIn (callText s f).toList = none := by
    rw [hcall]
    exact declaredIn_call hfront (by simp) _
  rw [Step.declared, List.filterMap_cons, Step.code_line, hread]
  rfl

end NativeInterface.C

namespace NativeInterface
open NativeInterface.C

/-! ## The in-process backend -/

namespace Nif
variable {s : Surface}

/-- The code of a clause declares the array of its items. -/
theorem declared_encodeClause {dst : String} (hdst : dst = "result" ∨ dst = "message") (c : Clause)
    (n : Nat) :
    ∃ m temporaries, Fresh reserved.encoding n m temporaries ∧
      Step.declared ((encodeClause s c dst).run n).1 = "items" :: temporaries := by
  obtain ⟨hitems, hlast⟩ := frames_clause hdst c
  have hparts := declaresFresh_collect (by decide)
    (fun x => (convertsItem (s := s) x.1 x.2).fresh) c.items.zipIdx n
  refine ⟨_, _, hparts, ?_⟩
  change Step.declared ([_] ++ _ ++ [_]) = _
  rw [Step.declared_append, Step.declared_append, hitems.declared, hlast.declared,
    List.append_nil]
  rfl

theorem declares (s : Surface) : generator.Declares reserved s where
  accessor f c n := by
    obtain ⟨m, temporaries, hfresh, hbody⟩ := declared_encodeClause (s := s) (.inl rfl) c n
    exact .cons ⟨rfl, declares_wrapped _ ["env"] ["result"] ["items"] (by decide)
      (declared_accessorSignature ..) frames_result.1.declared hbody frames_result.2.declared
      hfresh⟩ .nil
  send c n := by
    obtain ⟨m, temporaries, hfresh, hbody⟩ := declared_encodeClause (s := s) (.inr rfl) c n
    exact .cons ⟨rfl, declares_wrapped _ ["env", "pid", "flags"] ["message"] ["items"] (by decide)
      (declared_sendSignature ..) frames_message.1.declared hbody frames_message.2.declared
      hfresh⟩ .nil
  wrapper f n := by
    have hparts := declaresFresh_collect (by decide)
      (fun x => (converts_decodeParam (s := s) x.1 x.2).fresh rfl) f.params.zipIdx n
    refine .cons (declares_of_fresh ["env", "argc", "argv"] [] (by decide) hparts ?_) .nil
    change (exportSignature f).declared ++ Step.declared ([_] ++ _ ++ _ ++ [_]) = _
    have hlocals := declared_locals s Param.name Param.type f.params
    rw [Step.declared_append, Step.declared_append, Step.declared_append, hlocals,
      frames_argc.declared,
      declared_callText, List.append_nil, List.nil_append, List.nil_append]
    rfl

end Nif

/-! ## The out-of-process backend -/

namespace CNode
variable {s : Surface}

theorem declaresFresh_encodeClause (c : Clause) :
    DeclaresFresh reserved.encoding (encodeClause s c) := by
  intro n
  have hparts := declaresFresh_collect (by decide) (fun item => (convertsItem (s := s) item).fresh)
    c.items n
  change Fresh _ n _ (Step.declared (_ ++ _))
  rw [Step.declared_append, (frames_clause c).declared]
  exact hparts

theorem declares (s : Surface) : generator.Declares reserved s where
  accessor f c n := .cons ⟨rfl, declares_wrapped _ ["env"] ["out"] [] (by decide)
    (declared_accessorSignature ..) frames_reply.1.declared rfl frames_reply.2.declared
    (declaresFresh_encodeClause c n)⟩ .nil
  send c n := .cons ⟨rfl, declares_wrapped _ ["env", "pid", "flags"] ["out"] [] (by decide)
    (declared_sendSignature ..) frames_send.1.declared rfl frames_send.2.declared
    (declaresFresh_encodeClause c n)⟩ .nil
  wrapper f n := by
    have hparts := declaresFresh_collect (by decide)
      (fun p => (converts_decodeParam (s := s) p).fresh rfl) f.params n
    have hlocals := declared_locals s Param.name Param.type f.params
    have hunused := (frames_unusedRequest f.params.isEmpty).declared
    refine .cons (declares_of_fresh ["env", "buf", "index"] [] (by decide) hparts ?_) .nil
    change (wrapperSignature f).declared ++ Step.declared (_ ++ _ ++ _ ++ [_]) = _
    rw [Step.declared_append, Step.declared_append, Step.declared_append, hlocals, hunused,
      declared_callText, List.append_nil, List.append_nil, List.nil_append]
    rfl

end CNode

namespace C

/-! ## Names that users choose -/

section values
variable {α : Type} (name : α → String) (type : α → Ty)

/-- Values that C tells apart when their names are different: the identifiers are different as well,
and none is the length of a list beside it. -/
structure Legible (xs : List α) : Prop where
  idents : ∀ x ∈ xs, ∀ y ∈ xs, ident (name x) = ident (name y) → name x = name y
  lengths : ∀ x ∈ xs, ∀ y ∈ xs, (type y).isList → ident (name x) ≠ lengthName (ident (name y))

instance (xs : List α) : Decidable (Legible name type xs) :=
  decidable_of_iff (_ ∧ _) ⟨fun h => ⟨h.1, h.2⟩, fun h => ⟨h.idents, h.lengths⟩⟩

variable {name type} {xs : List α}

theorem mem_valueNames {n w : String} {t : Ty} :
    w ∈ valueNames n t ↔ w = ident n ∨ t.isList ∧ w = lengthName (ident n) := by
  rw [valueNames]
  split
  · rename_i hlist
    simp [hlist]
  · rename_i hlist
    simp [hlist]

theorem lengthName_inj {a b : String} (h : lengthName a = lengthName b) : a = b := by
  simpa [lengthName] using h

theorem ident_ne_lengthName (n : String) : ident n ≠ lengthName (ident n) := by
  intro h
  have hlength := congrArg String.length h
  simp [lengthName] at hlength

/-- All names of legible values are different. -/
theorem nodup_valueNames (hnames : (xs.map name).Nodup) (h : Legible name type xs) :
    (xs.flatMap fun x => valueNames (name x) (type x)).Nodup := by
  refine List.nodup_flatMap.mpr ⟨fun x _ => ?_, ?_⟩
  · rw [valueNames]
    split
    · simpa using ident_ne_lengthName (name x)
    · exact List.nodup_singleton _
  · refine (List.pairwise_map.mp hnames).imp_of_mem fun {x y} hx hy hne => ?_
    intro w hwx hwy
    rcases mem_valueNames.mp hwx with rfl | ⟨hlist, rfl⟩
    · rcases mem_valueNames.mp hwy with hxy | ⟨hlist, hxy⟩
      · exact hne (h.idents x hx y hy hxy)
      · exact h.lengths x hx y hy hlist hxy
    · rcases mem_valueNames.mp hwy with hxy | ⟨-, hxy⟩
      · exact h.lengths y hy x hx hlist hxy.symm
      · exact hne (h.idents x hx y hy (lengthName_inj hxy))

/-- The generator has no variable that is called like a length. -/
theorem avoids_lengthName {fixed : List String}
    (hfixed : ∀ word ∈ fixed, ¬"_length".toList.isSuffixOf word.toList) (stems : List String)
    (n : String) : Avoids fixed stems (lengthName n) := by
  have hchars : (lengthName n).toList = n.toList ++ "_length".toList := String.toList_append
  refine ⟨fun hmem => ?_, fun hnumbered => ?_⟩
  · refine hfixed _ hmem (List.isSuffixOf_iff_suffix.mpr ?_)
    rw [hchars]
    exact List.suffix_append _ _
  · obtain ⟨stem, -, h⟩ := List.any_eq_true.mp hnumbered
    simp only [Bool.and_eq_true, Bool.not_eq_true', List.isEmpty_eq_false_iff,
      List.all_eq_true] at h
    have hlast : ((lengthName n).toList.drop stem.length).getLast? = some 'h' := by
      rw [List.getLast?_drop, if_neg, hchars, List.getLast?_append]
      · rfl
      · intro hle
        exact h.1.2 (List.drop_eq_nil_of_le hle)
    have hdigit : 'h'.isDigit := h.2 _ (List.mem_of_getLast? hlast)
    cases hdigit

theorem avoids_valueNames {fixed stems : List String}
    (hfixed : ∀ word ∈ fixed, ¬"_length".toList.isSuffixOf word.toList)
    (h : ∀ x ∈ xs, Avoids fixed stems (ident (name x))) :
    ∀ w ∈ xs.flatMap fun x => valueNames (name x) (type x), Avoids fixed stems w := by
  intro w hw
  obtain ⟨x, hx, hw⟩ := List.mem_flatMap.mp hw
  rcases mem_valueNames.mp hw with rfl | ⟨-, rfl⟩
  · exact h x hx
  · exact avoids_lengthName hfixed stems _

end values

/-- The names of a surface are clear of each other and of the variables of a backend. -/
structure Reserved.Avoided (r : Reserved) (s : Surface) : Prop where
  /-- Nothing else keeps the arguments of a function apart. -/
  distinct : ∀ f ∈ s.functions, (f.params.map (·.name)).Nodup
  params : ∀ f ∈ s.functions, Legible Param.name Param.type f.params ∧
    ∀ p ∈ f.params, Avoids r.wrapper r.decoding (ident p.name)
  results : ∀ f ∈ s.functions, ∀ c ∈ f.results, Legible ResultItem.name ResultItem.type c.values ∧
    ∀ v ∈ c.values, Avoids r.accessor r.encoding (ident v.name)
  sends : ∀ c ∈ s.sends, Legible ResultItem.name ResultItem.type c.values ∧
    ∀ v ∈ c.values, Avoids r.send r.encoding (ident v.name)
  members : ∀ d ∈ s.structs, Legible Member.name Member.type d.members

/-! ## Whole files -/

/-- The functions and structs of a header and a source are hygienic. -/
structure HygienicFiles (r : Reserved) (s : Surface) (header source : List Item) : Prop where
  implementations : List.Forall₂
    (fun f p => Hygienic r.wrapper r.decoding (paramNames f) p.2.declared)
    s.functions (prototypesOf Role.isImplementation header)
  prototypes : List.Forall₂
    (fun c p => Hygienic (r.result p.1) r.encoding (clauseNames c) p.2.declared)
    (s.functions.flatMap (·.results) ++ s.sends.toList) (prototypesOf Role.isResult header)
  /-- Accessors and the message. -/
  results : List.Forall₂
    (fun c d => Hygienic (r.result d.role) r.encoding (clauseNames c) d.declared)
    (s.functions.flatMap (·.results) ++ s.sends.toList) (definitionsOf Role.isResult source)
  wrappers : List.Forall₂ (fun f d => Hygienic r.wrapper r.decoding (paramNames f) d.declared)
    s.functions (definitionsOf Role.isWrapper source)
  structs : ∀ d ∈ s.structs, ∃ body,
    .group ("struct " ++ ident d.name ++ "_t") body ";" ∈ header ∧
      Step.fields body = memberNames d ∧ (memberNames d).Nodup

/-- The parameters that every function of a kind has are reserved, and no length is. -/
def Reserved.Complete (r : Reserved) : Prop :=
  ["env"] ⊆ r.wrapper ∧ ["env"] ⊆ r.accessor ∧ ["env", "pid", "flags"] ⊆ r.send ∧
    ∀ word ∈ r.wrapper ++ r.accessor ++ r.send, ¬"_length".toList.isSuffixOf word.toList

instance (r : Reserved) : Decidable r.Complete :=
  inferInstanceAs (Decidable (_ ∧ _ ∧ _ ∧ _))

section files
variable {r : Reserved} {s : Surface} {name : String} {ds : List Declaration}

theorem clear_params (hr : r.Complete) (h : r.Avoided s) {f : NativeFunction}
    (hf : f ∈ s.functions) : Clear r.wrapper r.decoding (paramNames f) where
  nodup := nodup_valueNames (h.distinct f hf) (h.params f hf).1
  avoids := by
    refine avoids_valueNames (fun word hword => hr.2.2.2 word ?_) (h.params f hf).2
    simp [hword]

theorem clear_results (hr : r.Complete) (hbuild : Surface.build name ds = .ok s) (h : r.Avoided s)
    (returns : String) :
    ∀ p ∈ resultHeads returns s, Clear (r.result p.2.1) r.encoding (clauseNames p.1) := by
  obtain ⟨hfunctions, hsends⟩ := Surface.wellFormed_of_build hbuild
  intro p hp
  simp only [resultHeads, List.mem_append, List.mem_flatMap, List.mem_singleton] at hp
  rcases hp with ⟨f, hf, c, hc, rfl⟩ | ⟨c, hc, rfl⟩
  · obtain ⟨hlegible, havoids⟩ := h.results f hf c hc
    refine ⟨nodup_valueNames ((hfunctions f hf).2 c hc).names_nodup hlegible, ?_⟩
    refine avoids_valueNames (fun word hword => hr.2.2.2 word ?_) havoids
    have hword : word ∈ r.accessor := hword
    simp [hword]
  · have hc : c ∈ s.sends := Option.mem_toList.mp hc
    obtain ⟨hlegible, havoids⟩ := h.sends c hc
    refine ⟨nodup_valueNames (hsends c hc).names_nodup hlegible, ?_⟩
    refine avoids_valueNames (fun word hword => hr.2.2.2 word ?_) havoids
    have hword : word ∈ r.send := hword
    simp [hword]

theorem hygienicFiles_of_declares {g : Generator} (hr : r.Complete) (hwrites : g.Writes s)
    (hdeclares : g.Declares r s) (hbuild : Surface.build name ds = .ok s) (h : r.Avoided s)
    (file : String) : HygienicFiles r s (headerItems g.flavor file s) (g.source s file) := by
  obtain ⟨n₁, n₂, n₃, hresults, hwrappers⟩ := hwrites.definitionsOf file
  obtain ⟨himpls, hprototypes⟩ := prototypesOf_headerItems g.flavor file s
  have hclear := clear_results hr hbuild h g.flavor.returns
  have hclauses : s.functions.flatMap (·.results) ++ s.sends.toList =
      (resultHeads g.flavor.returns s).map (·.1) := by
    simp [resultHeads, accessorHead, sendHead, List.map_flatMap]
  constructor
  · rw [himpls, List.forall₂_map_right_iff, List.forall₂_same]
    exact fun f hf => (clear_params hr h hf).hygienic_prototype ⟨by decide, hr.1⟩
      (declared_implSignature _ _ _)
  · rw [hprototypes, hclauses, List.forall₂_map_left_iff, List.forall₂_map_right_iff,
      List.forall₂_same]
    intro p hp
    have hp' := hp
    simp only [resultHeads, List.mem_append, List.mem_flatMap, List.mem_singleton] at hp'
    rcases hp' with ⟨f, hf, c, hc, rfl⟩ | ⟨c, hc, rfl⟩
    · exact (hclear _ hp).hygienic_prototype ⟨by decide, hr.2.1⟩
        (declared_accessorSignature _ _ _ _)
    · exact (hclear _ hp).hygienic_prototype ⟨by decide, hr.2.2.1⟩ (declared_sendSignature _ _)
  · rw [hresults, hclauses, List.forall₂_map_left_iff]
    have hall := Generator.forall₂_results hdeclares.accessor hdeclares.send n₁ n₂
    refine ((List.forall₂_and_left _ _).mpr ⟨hclear, hall⟩).imp fun p d hd => ?_
    obtain ⟨hclear, hrole, hdeclares⟩ := hd
    rw [hrole]
    exact hdeclares.hygienic hclear
  · have hparams : ∀ f ∈ s.functions, Clear r.wrapper r.decoding (paramNames f) :=
      fun f hf => clear_params hr h hf
    rw [hwrappers]
    refine ((List.forall₂_and_left _ _).mpr
      ⟨hparams, Generator.forall₂_wrappers hdeclares.wrapper n₃⟩).imp fun f d hd => ?_
    exact Declares.hygienic hd.2 hd.1
  · intro d hd
    obtain ⟨b, rfl, hkeys, -⟩ := Surface.exists_builder hbuild
    exact ⟨_, struct_mem_header g.flavor file hd, fields_decls _ Member.name Member.type d.members,
      nodup_valueNames (hkeys.members d hd) (h.members d hd)⟩

end files

/-- **Hygiene of a compiled file**, for both backends: the texts are those of lists of items, and if
the names of the file avoid each other and the variables of the generator, then no function declares
a name twice, and no struct has two fields of one name. -/
theorem hygiene_of_compile {file : SourceFile} {s : Surface} (h : file.compile = .ok s)
    (name : String) :
    (Nif.backend.header name s = Item.render (headerItems Nif.flavor name s) ∧
      Nif.backend.source name s = Item.render (Nif.sourceItems name s) ∧
      (Nif.reserved.Avoided s →
        HygienicFiles Nif.reserved s (headerItems Nif.flavor name s) (Nif.sourceItems name s))) ∧
    (CNode.backend.header name s = Item.render (headerItems CNode.flavor name s) ∧
      CNode.backend.source name s = Item.render (CNode.sourceItems name s) ∧
      (CNode.reserved.Avoided s →
        HygienicFiles CNode.reserved s (headerItems CNode.flavor name s)
          (CNode.sourceItems name s))) := by
  have hbuild := (SourceFile.build_of_compile h).2
  refine ⟨⟨by rw [Nif.backend], by rw [Nif.backend], fun havoided => ?_⟩,
    by rw [CNode.backend], by rw [CNode.backend], fun havoided => ?_⟩
  · rw [Nif.sourceItems_eq]
    exact hygienicFiles_of_declares (by decide) (Nif.writes s) (Nif.declares s) hbuild havoided name
  · rw [CNode.sourceItems_eq]
    exact hygienicFiles_of_declares (by decide) (CNode.writes s) (CNode.declares s) hbuild havoided
      name

/-- Lists in arguments and in a struct, and values with names that are reserved where they do not
stand. -/
theorem hygiene_of_compile_lists :
    let file : SourceFile := ⟨"a.bspec",
      "type p :: %P\x7bxs: [int]\x7d\n"
        ++ "spec f(ps :: [p], length :: int) :: \x7b:ok, i :: int\x7d\n"
        ++ "sends \x7b:e, result :: [int]\x7d"⟩
    let f : NativeFunction :=
      ⟨"f", 2, [⟨"ps", .list (.named "p")⟩, ⟨"length", .named "int"⟩],
        [⟨[.ofLabel "ok", ⟨none, "i", .named "int"⟩], "f_result_ok"⟩]⟩
    let s : Surface :=
      { moduleName := "a", functions := [f]
        structs := [⟨"p", "P", [⟨"xs", .list (.named "int")⟩]⟩]
        sends := some ⟨[.ofLabel "e", ⟨none, "result", .list (.named "int")⟩], "send_e"⟩ }
    file.compile = .ok s ∧ Nif.reserved.Avoided s ∧ CNode.reserved.Avoided s ∧
      HygienicFiles Nif.reserved s (headerItems Nif.flavor "a" s) (Nif.sourceItems "a" s) ∧
      HygienicFiles CNode.reserved s (headerItems CNode.flavor "a" s)
        (CNode.sourceItems "a" s) := by
  intro file f s
  have hcompile : file.compile = .ok s := by decide +kernel
  have hnif : Nif.reserved.Avoided s :=
    ⟨by decide +kernel, by decide +kernel, by decide +kernel, by decide +kernel, by decide +kernel⟩
  have hcnode : CNode.reserved.Avoided s :=
    ⟨by decide +kernel, by decide +kernel, by decide +kernel, by decide +kernel, by decide +kernel⟩
  have hfiles := hygiene_of_compile hcompile "a"
  exact ⟨hcompile, hnif, hcnode, hfiles.1.2.2 hnif, hfiles.2.2.2 hcnode⟩

/-- What is read in the files of a text that compiles. -/
def namesOf (read : Surface → List (List String)) (text : String) : Option (List (List String)) :=
  (SourceFile.mk "a.bspec" text).compile.toOption.map read

/-- The parameters of all prototypes in a header. -/
def prototypeNames (s : Surface) : List (List String) :=
  ((headerItems Nif.flavor "a" s).filterMap Item.prototype?).map (·.2.declared)

/-- The fields of all structs. -/
def fieldNames (s : Surface) : List (List String) :=
  (s.structs.flatMap (structItems s)).map fun item => Step.fields item.steps.tail.dropLast

/-- What accessors and messages declare. -/
def resultNames (source : List Item) : List (List String) :=
  (definitionsOf Role.isResult source).map Definition.declared

/-- Each condition on the names is needed: two arguments of one name; names that differ in
characters that C does not have; a value that is called like the length of another; and values that
are called like a variable of the generator, with and without a number. -/
theorem names_collide :
    namesOf prototypeNames "spec f(a :: int, a :: int) :: :ok" = some [["env", "a", "a"], ["env"]] ∧
    namesOf prototypeNames "spec f(x? :: int, x! :: int) :: :ok" =
      some [["env", "x_", "x_"], ["env"]] ∧
    namesOf prototypeNames "spec f() :: \x7b:ok, xs :: [int], xs_length :: int\x7d" =
      some [["env"], ["env", "xs", "xs_length", "xs_length"]] ∧
    namesOf prototypeNames "sends \x7b:ok, pid :: int\x7d" = some [["env", "pid", "flags", "pid"]] ∧
    namesOf (fun s => resultNames (Nif.sourceItems "a" s)) "sends \x7b:ok, items :: int\x7d" =
      some [["env", "pid", "flags", "items", "message", "items"]] ∧
    namesOf (fun s => resultNames (CNode.sourceItems "a" s))
        "sends \x7b:ok, xs :: [int], i_1 :: int\x7d" =
      some [["env", "pid", "flags", "xs", "xs_length", "i_1", "out", "i_1"]] ∧
    namesOf fieldNames "type t :: %T\x7bx?: int, x!: int\x7d" = some [["x_", "x_"], []] := by
  refine ⟨?_, ?_, ?_, ?_, ?_, ?_, ?_⟩ <;> decide +kernel

end C
end NativeInterface
