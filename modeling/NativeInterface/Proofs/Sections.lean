import NativeInterface.Proofs.ValueCode

/-!
# Sections of a source

The functions that a source defines stand in sections, one behind the other: helpers of enums and of
structs, accessors, the message, wrappers, and what the runtime calls. Both backends write them so,
each with code of its own for a part of a surface (`Generator`). In each function the code for its
values stands in parts, in the order of the values (`Parts`), and each part names its value as it is
declared (`Generator.Writes`).
-/

namespace NativeInterface.C

/-! ## What files declare and define -/

/-- A function that a C file defines. -/
structure Definition where
  role : Role
  signature : Signature
  body : List Step

def Item.prototype? : Item → Option (Role × Signature)
  | .prototype role signature => some (role, signature)
  | _ => none

def Item.definition? : Item → Option Definition
  | .definition role signature body => some ⟨role, signature, body⟩
  | _ => none

namespace Item
variable (role : Role) (signature : Signature) (body : List Step) (text tail : String)

@[simp] theorem prototype?_prototype :
    (prototype role signature).prototype? = some (role, signature) := rfl

@[simp] theorem prototype?_raw : (raw text).prototype? = none := rfl

@[simp] theorem prototype?_blank : blank.prototype? = none := rfl

@[simp] theorem prototype?_group : (group text body tail).prototype? = none := rfl

@[simp] theorem definition?_prototype : (prototype role signature).definition? = none := rfl

@[simp] theorem definition?_raw : (raw text).definition? = none := rfl

end Item

namespace Role

def isImplementation : Role → Bool
  | implementation _ _ => true
  | _ => false

/-- An accessor or the message. -/
def isResult : Role → Bool
  | accessor _ _ _ | send => true
  | _ => false

def isWrapper : Role → Bool
  | wrapper _ _ => true
  | _ => false

theorem of_isResult (r : Role) (h : r.isResult) :
    r.isWrapper = false ∧ r.isImplementation = false := by
  cases r with
  | accessor | send => exact ⟨rfl, rfl⟩
  | _ => cases h

end Role

/-- The prototypes of some roles, in order. -/
def prototypesOf (p : Role → Bool) (items : List Item) : List (Role × Signature) :=
  (items.filterMap Item.prototype?).filter (p ·.1)

/-- The definitions of some roles, in order. -/
def definitionsOf (p : Role → Bool) (items : List Item) : List Definition :=
  (items.filterMap Item.definition?).filter (p ·.role)

/-- What has a property stands in one piece. -/
theorem filter_middle {α : Type} {p : α → Bool} {front xs back : List α}
    (hfront : ∀ x ∈ front, p x = false) (hxs : ∀ x ∈ xs, p x) (hback : ∀ x ∈ back, p x = false) :
    (front ++ xs ++ back).filter p = xs := by
  have hnone {ys : List α} (h : ∀ y ∈ ys, p y = false) : ys.filter p = [] :=
    List.filter_eq_nil_iff.mpr fun y hy => Bool.eq_false_iff.mp (h y hy)
  rw [List.filter_append, List.filter_append, hnone hfront, List.filter_eq_self.mpr hxs,
    hnone hback, List.nil_append, List.append_nil]

/-! ## Parts of code -/

/-- Code for values one behind the other, with code around it that names no value. -/
def Parts {α : Type} (P : α → List Step → Prop) (xs : List α) (body : List Step) : Prop :=
  ∃ head chunks tail, body = head ++ chunks.flatten ++ tail ∧ Uses [] head ∧ Uses [] tail ∧
    List.Forall₂ P xs chunks

section Parts
variable {α : Type} {P : α → List Step → Prop} {xs : List α} {body : List Step}

/-- Code in front and behind that names no value. -/
theorem Parts.wrap {front back : List Step} (hfront : Uses [] front) (h : Parts P xs body)
    (hback : Uses [] back) : Parts P xs (front ++ body ++ back) := by
  obtain ⟨head, chunks, tail, rfl, hhead, htail, hall⟩ := h
  refine ⟨front ++ head, chunks, tail ++ back, ?_, hfront.append hhead, htail.append hback, hall⟩
  simp only [List.append_assoc]

theorem Parts.of_chunks (h : ∃ chunks, body = chunks.flatten ∧ List.Forall₂ P xs chunks) :
    Parts P xs body := by
  obtain ⟨chunks, rfl, hall⟩ := h
  refine ⟨[], chunks, [], ?_, .nil, .nil, hall⟩
  rw [List.nil_append, List.append_nil]

theorem exists_of_collect {f : α → Numbered (List Step)} (h : ∀ x n, P x ((f x).run n).1)
    (xs : List α) (n : Nat) :
    ∃ chunks, ((collect f xs).run n).1 = chunks.flatten ∧ List.Forall₂ P xs chunks := by
  induction xs generalizing n with
  | nil => exact ⟨[], rfl, .nil⟩
  | cons x xs ih =>
    obtain ⟨chunks, hchunks, hall⟩ := ih ((f x).run n).2
    refine ⟨((f x).run n).1 :: chunks, ?_, .cons (h x n) hall⟩
    rw [List.flatten_cons, ← hchunks]
    rfl

theorem parts_of_collect {f : α → Numbered (List Step)} (h : ∀ x n, P x ((f x).run n).1)
    (xs : List α) (n : Nat) : Parts P xs ((collect f xs).run n).1 :=
  .of_chunks (exists_of_collect h xs n)

/-- The same when the elements are counted. -/
theorem exists_of_collect_zipIdx {f : α × Nat → Numbered (List Step)}
    (h : ∀ x n, P x.1 ((f x).run n).1) (xs : List α) (n : Nat) :
    ∃ chunks, ((collect f xs.zipIdx).run n).1 = chunks.flatten ∧ List.Forall₂ P xs chunks := by
  obtain ⟨chunks, hchunks, hall⟩ := @exists_of_collect _ (fun x => P x.1) f h xs.zipIdx n
  rw [← List.forall₂_map_left_iff, List.zipIdx_map_fst] at hall
  exact ⟨chunks, hchunks, hall⟩

theorem parts_of_collect_zipIdx {f : α × Nat → Numbered (List Step)}
    (h : ∀ x n, P x.1 ((f x).run n).1) (xs : List α) (n : Nat) :
    Parts P xs ((collect f xs.zipIdx).run n).1 :=
  .of_chunks (exists_of_collect_zipIdx h xs n)

end Parts

/-- What numbered items define, when each part defines something related to its element. -/
theorem forall₂_collect {α γ : Type} {f : α → Numbered (List Item)} {g : α → List γ}
    {R : γ → Definition → Prop}
    (h : ∀ x n, List.Forall₂ R (g x) (((f x).run n).1.filterMap Item.definition?))
    (xs : List α) (n : Nat) :
    List.Forall₂ R (xs.flatMap g) (((collect f xs).run n).1.filterMap Item.definition?) := by
  induction xs generalizing n with
  | nil => exact .nil
  | cons x xs ih =>
    change List.Forall₂ R _
      ((((f x).run n).1 ++ ((collect f xs).run ((f x).run n).2).1).filterMap _)
    rw [List.flatMap_cons, List.filterMap_append]
    exact List.rel_append (h x n) (ih _)

/-! ## Sources -/

theorem literal_struct : literal "__struct__" = "\"__struct__\"" := by
  rw [literal, String.toList_ofList]
  rfl

/-- A helper of a struct with the signature that it should have, for the direction in which fields
are found under the path. -/
def ConvertsStruct (s : Surface) (p : Struct × String × Signature) (d : Definition) : Prop :=
  (d.role, d.signature) = (.conversion p.1.name, p.2.2) ∧
    Parts (fun m chunk => Handles s p.2.1 m.name m.type chunk) p.1.members d.body

/-- The accessor of a clause, or the message, with the role and the signature that it should have.
-/
def MakesResult (s : Surface) (p : Clause × Role × Signature) (d : Definition) : Prop :=
  (d.role, d.signature) = p.2 ∧ d.role.isResult ∧ Parts (HandlesItem s) p.1.items d.body

/-- The wrapper of a function: its locals, the code that fills them, and the call. -/
def WrapsFunction (signature : NativeFunction → Signature) (s : Surface) (f : NativeFunction)
    (d : Definition) : Prop :=
  d.role = .wrapper f.name f.arity ∧ d.signature = signature f ∧
    ∃ (texts : List String) (chunks : List (List Step)) (tail : List Step),
      d.body = (texts ++ f.params.flatMap fun p => valueLocals s p.name p.type).map Step.line
        ++ chunks.flatten ++ tail ++ [Step.line (callText s f)] ∧
      Uses [] (texts.map Step.line) ∧ Uses [] tail ∧
      List.Forall₂ (fun p chunk => Handles s "" p.name p.type chunk) f.params chunks

/-- A clause of a function with the role and the signature of its accessor. -/
def accessorHead (returns : String) (s : Surface) (f : NativeFunction) (c : Clause) :
    Clause × Role × Signature :=
  (c, .accessor f.name f.arity c.accessor, accessorSignature returns s f c)

/-- The message with its role and its signature. -/
def sendHead (s : Surface) (c : Clause) : Clause × Role × Signature := (c, .send, sendSignature s c)

/-- A clause with the role and the signature of its accessor, or of the message. -/
def resultHeads (returns : String) (s : Surface) : List (Clause × Role × Signature) :=
  s.functions.flatMap (fun f => f.results.flatMap fun c => [accessorHead returns s f c])
    ++ s.sends.toList.flatMap fun c => [sendHead s c]

/-- A struct with the path of its fields and the signature of its helper, for each direction. -/
def structHeads (helpers : String → Signature × Signature) (d : Struct) :
    List (Struct × String × Signature) :=
  [(d, "value.", (helpers d.name).1), (d, "out->", (helpers d.name).2)]

/-- What a backend writes for each part of a surface. -/
structure Generator where
  flavor : Flavor
  /-- The headers that a source needs beside its own. -/
  includes : List String
  /-- The helpers of a type: one writes a value, the other reads one. -/
  helpers : String → Signature × Signature
  enum : Enum → List Item
  struct : Surface → Struct → Numbered (List Item)
  accessor : Surface → NativeFunction → Clause → Numbered (List Item)
  send : Surface → Clause → Numbered (List Item)
  /-- The signature of the wrapper of a function. -/
  signature : NativeFunction → Signature
  wrapper : Surface → NativeFunction → Numbered (List Item)
  /-- What stands behind the functions. -/
  last : Surface → List Item

namespace Generator
variable (g : Generator) (s : Surface)

/-- The prototypes of the helpers of a struct. -/
def forward (d : Struct) : List Item :=
  [.prototype (.conversion d.name) (g.helpers d.name).1,
    .prototype (.conversion d.name) (g.helpers d.name).2]

/-- The helpers of structs stand behind prototypes of all of them. -/
def structs : Numbered (List Item) :=
  if s.structs.isEmpty then pure []
  else do
    let defined ← collect (g.struct s) s.structs
    pure (s.structs.flatMap g.forward ++ .blank :: defined)

def accessors : Numbered (List Item) :=
  collect (fun f => collect (g.accessor s f) f.results) s.functions

def sends : Numbered (List Item) := collect (g.send s) s.sends.toList

def wrappers : Numbered (List Item) := collect (g.wrapper s) s.functions

def source (name : String) : List Item :=
  let numbered : Numbered (List Item) := do
    let structs ← g.structs s
    let accessors ← g.accessors s
    let sends ← g.sends s
    let wrappers ← g.wrappers s
    pure (structs ++ accessors ++ sends ++ wrappers)
  banner g.flavor.backend name s
    ++ (g.includes.map Item.raw ++ [.raw ("#include \"" ++ name ++ ".h\""), .blank])
    ++ s.enums.flatMap g.enum
    ++ (numbered.run 0).1
    ++ g.last s

/-- A source in front of its functions. What it is made from is named there as it is. -/
def front (name : String) : List Item :=
  banner g.flavor.backend name s
    ++ (g.includes.map Item.raw ++ [.raw ("#include \"" ++ name ++ ".h\"")])

/-- Accessors and the message behind them. -/
def results (n₁ n₂ : Nat) : List Item := ((g.accessors s).run n₁).1 ++ ((g.sends s).run n₂).1

/-- The functions of a source, section by section; loop variables of a section are numbered on from
those of the one before. -/
def defined (n₁ n₂ n₃ : Nat) : List Item :=
  s.enums.flatMap g.enum ++ ((g.structs s).run 0).1 ++ g.results s n₁ n₂
    ++ ((g.wrappers s).run n₃).1

theorem exists_defined (name : String) :
    ∃ n₁ n₂ n₃,
      g.source s name = g.front s name ++ (.blank :: g.defined s n₁ n₂ n₃ ++ g.last s) := by
  have hrun : ∃ n₁ n₂ n₃, g.source s name = banner g.flavor.backend name s
      ++ (g.includes.map Item.raw ++ [.raw ("#include \"" ++ name ++ ".h\""), .blank])
      ++ s.enums.flatMap g.enum
      ++ (((g.structs s).run 0).1 ++ ((g.accessors s).run n₁).1 ++ ((g.sends s).run n₂).1
        ++ ((g.wrappers s).run n₃).1)
      ++ g.last s :=
    ⟨_, _, _, rfl⟩
  obtain ⟨n₁, n₂, n₃, hrun⟩ := hrun
  refine ⟨n₁, n₂, n₃, ?_⟩
  simp only [hrun, front, defined, results, List.append_assoc, List.cons_append, List.nil_append]

section related
variable {g s}

theorem forall₂_results {R : Clause × Role × Signature → Definition → Prop}
    (haccessor : ∀ f c n, List.Forall₂ R [accessorHead g.flavor.returns s f c]
      (((g.accessor s f c).run n).1.filterMap Item.definition?))
    (hsend : ∀ c n, List.Forall₂ R [sendHead s c]
      (((g.send s c).run n).1.filterMap Item.definition?)) (n₁ n₂ : Nat) :
    List.Forall₂ R (resultHeads g.flavor.returns s)
      ((g.results s n₁ n₂).filterMap Item.definition?) := by
  rw [results, List.filterMap_append]
  exact List.rel_append (forall₂_collect (fun f => forall₂_collect (haccessor f) f.results) _ n₁)
    (forall₂_collect hsend _ n₂)

/-- Each function has one wrapper. -/
theorem forall₂_wrappers {R : NativeFunction → Definition → Prop}
    (h : ∀ f n, List.Forall₂ R [f] (((g.wrapper s f).run n).1.filterMap Item.definition?))
    (n : Nat) :
    List.Forall₂ R s.functions (((g.wrappers s).run n).1.filterMap Item.definition?) := by
  have hall := forall₂_collect (g := fun f => [f]) h s.functions n
  rwa [List.flatMap_singleton'] at hall

end related

/-- Each part of a source is written as it should be. -/
structure Writes : Prop where
  enum : ∀ e, ∃ body body', (g.enum e).filterMap Item.definition? =
    [⟨.conversion e.name, (g.helpers e.name).1, body⟩,
      ⟨.conversion e.name, (g.helpers e.name).2, body'⟩]
  struct : ∀ d n, List.Forall₂ (ConvertsStruct s) (structHeads g.helpers d)
    (((g.struct s d).run n).1.filterMap Item.definition?)
  accessor : ∀ f c n, List.Forall₂ (MakesResult s) [accessorHead g.flavor.returns s f c]
    (((g.accessor s f c).run n).1.filterMap Item.definition?)
  send : ∀ c n, List.Forall₂ (MakesResult s) [sendHead s c]
    (((g.send s c).run n).1.filterMap Item.definition?)
  wrapper : ∀ f n, List.Forall₂ (WrapsFunction g.signature s) [f]
    (((g.wrapper s f).run n).1.filterMap Item.definition?)
  last : ∀ d ∈ (g.last s).filterMap Item.definition?, d.role = .entry

namespace Writes
variable {g s} (h : g.Writes s)
include h

/-- The helpers of enums, two for each. -/
theorem enums :
    ((s.enums.flatMap g.enum).filterMap Item.definition?).map (·.signature) =
        s.enums.flatMap (fun e => [(g.helpers e.name).1, (g.helpers e.name).2]) ∧
      ∀ d ∈ (s.enums.flatMap g.enum).filterMap Item.definition?,
        ∃ name, d.role = .conversion name := by
  rw [List.filterMap_flatMap, List.map_flatMap]
  constructor
  · refine List.flatMap_congr fun e _ => ?_
    obtain ⟨body, body', hdefs⟩ := h.enum e
    rw [hdefs]
    rfl
  · intro d hd
    obtain ⟨e, -, hd⟩ := List.mem_flatMap.mp hd
    obtain ⟨body, body', hdefs⟩ := h.enum e
    rw [hdefs] at hd
    rcases List.mem_pair.mp hd with rfl | rfl
    · exact ⟨_, rfl⟩
    · exact ⟨_, rfl⟩

theorem structs (n : Nat) :
    List.Forall₂ (ConvertsStruct s) (s.structs.flatMap (structHeads g.helpers))
      (((g.structs s).run n).1.filterMap Item.definition?) := by
  have hforward : (s.structs.flatMap g.forward).filterMap Item.definition? = [] := by
    simp [List.filterMap_flatMap, forward]
  rw [Generator.structs]
  split
  · rename_i hempty
    rw [List.isEmpty_iff.mp hempty]
    exact .nil
  · change List.Forall₂ _ _ ((s.structs.flatMap g.forward
      ++ .blank :: ((collect (g.struct s) s.structs).run n).1).filterMap Item.definition?)
    rw [List.filterMap_append, hforward]
    exact forall₂_collect h.struct s.structs n

theorem results (n₁ n₂ : Nat) :
    List.Forall₂ (MakesResult s) (resultHeads g.flavor.returns s)
      ((g.results s n₁ n₂).filterMap Item.definition?) :=
  forall₂_results h.accessor h.send n₁ n₂

end Writes

end Generator

end NativeInterface.C

namespace NativeInterface

open C

/-! ## The in-process backend -/

namespace Nif
variable {s : Surface} {e : Filling}

def generator : Generator where
  flavor := flavor
  includes := []
  helpers name := (makeSignature name, getSignature name)
  enum := enumItems
  struct := structItems
  accessor := accessorItems
  send := sendItems
  signature := exportSignature
  wrapper := exportItems
  last s := tableItems s ++ [initItem s]

theorem sourceItems_eq (name : String) (s : Surface) :
    sourceItems name s = generator.source s name :=
  List.append_assoc ..

theorem filled_items :
    Filled e [] ["items"] [.line ("BridgeTerm items[" ++ Text.decimal e.index ++ "];")] :=
  filled_of_check rfl

/-- How a result and a message are put together. -/
theorem filled_tuple {dst : String} (hdst : dst = "result" ∨ dst = "message") :
    Filled e [] [] [.line (dst ++ " = items[0];")] ∧
      Filled e [] [] [.line (dst ++ " = bridge_make_tuple(env, items, " ++ Text.decimal e.index
        ++ ");")] := by
  rcases hdst with rfl | rfl
  all_goals
    constructor
    all_goals exact filled_of_check rfl

/-- The code around the items of a clause. -/
theorem frames_clause {dst : String} (hdst : dst = "result" ∨ dst = "message") (c : Clause) :
    Frames ["items"] [.line ("BridgeTerm items[" ++ Text.decimal c.items.length ++ "];")] ∧
      Frames [] [.line (if c.items.length = 1 then dst ++ " = items[0];"
        else dst ++ " = bridge_make_tuple(env, items, " ++ Text.decimal c.items.length
          ++ ");")] := by
  have htuple := @filled_tuple { index := c.items.length } _ hdst
  refine ⟨(@filled_items { index := c.items.length }).frames, ?_⟩
  split
  · exact htuple.1.frames
  · exact htuple.2.frames

theorem parts_encodeClause {dst : String} (hdst : dst = "result" ∨ dst = "message") (c : Clause)
    (n : Nat) : Parts (HandlesItem s) c.items ((encodeClause s c dst).run n).1 := by
  obtain ⟨hitems, hlast⟩ := frames_clause hdst c
  exact .wrap hitems.uses
    (parts_of_collect_zipIdx (fun x => (convertsItem x.1 x.2).handles) c.items n) hlast.uses

theorem frames_result : Frames ["result"] [.line "BridgeTerm result;"] ∧
    Frames [] [.line "return result;"] := by
  constructor
  all_goals exact frames_of_check rfl

theorem frames_message : Frames ["message"] [.line "BridgeTerm message;"] ∧
    Frames [] [.line "return bridge_send(env, &pid, message, flags);"] := by
  constructor
  all_goals exact frames_of_check rfl

/-- The code around the fields of a struct that is made. -/
theorem uses_slots (he : e.Fits) :
    Uses [] [.line ("BridgeTerm keys[" ++ Text.decimal e.index ++ "];"),
        .line ("BridgeTerm values[" ++ Text.decimal e.index ++ "];")] ∧
      Uses [] [.line ("values[0] = bridge_make_atom(env, " ++ literal e.quoted ++ ");")] ∧
      Uses [] [.line ("return bridge_make_map(env, keys, values, " ++ Text.decimal e.index
        ++ ");")] := by
  refine ⟨?_, ?_, ?_⟩
  all_goals exact uses_of_check he [] (by decide) rfl

theorem uses_structKey : Uses [] [.line "keys[0] = bridge_make_atom(env, \"__struct__\");"] := by
  have h := (@filled_key { quoted := "__struct__" }).frames.uses
  rwa [literal_struct] at h

theorem frames_field : Frames ["field"] [.line "BridgeTerm field;"] ∧
    Frames [] [.line "return 1;"] := by
  constructor
  all_goals exact frames_of_check rfl

theorem frames_argc : Frames [] [.line "(void)argc;"] := frames_of_check rfl

theorem writes (s : Surface) : generator.Writes s where
  enum _ := ⟨_, _, rfl⟩
  struct d n := by
    have hslots := uses_slots (Filling.fits_plain (d.members.length + 1) d.backing)
    have hencoded : Parts (fun m chunk => Handles s "value." m.name m.type chunk) d.members _ :=
      .wrap ((hslots.1.append uses_structKey).append hslots.2.1)
        (parts_of_collect_zipIdx (f := fun x => encodeMember s x.1 (x.2 + 1))
          (fun x => handles_encodeMember x.1 _) d.members n) hslots.2.2
    have hdecoded (n : Nat) :
        Parts (fun m chunk => Handles s "out->" m.name m.type chunk) d.members _ :=
      .wrap frames_field.1.uses (parts_of_collect handles_decodeMember d.members n)
        frames_field.2.uses
    exact .cons ⟨rfl, hencoded⟩ (.cons ⟨rfl, hdecoded _⟩ .nil)
  accessor f c n := .cons ⟨rfl, rfl,
    .wrap frames_result.1.uses (parts_encodeClause (.inl rfl) c n) frames_result.2.uses⟩ .nil
  send c n := .cons ⟨rfl, rfl,
    .wrap frames_message.1.uses (parts_encodeClause (.inr rfl) c n) frames_message.2.uses⟩ .nil
  wrapper f n := by
    obtain ⟨chunks, hchunks, hall⟩ := exists_of_collect_zipIdx
      (P := fun p chunk => Handles s "" p.name p.type chunk) (f := fun x => decodeParam s x.1 x.2)
      (fun x => (converts_decodeParam x.1 x.2).handles) f.params n
    refine .cons ⟨rfl, rfl, ["(void)argc;"], chunks, [], ?_, frames_argc.uses, .nil, hall⟩ .nil
    rw [List.append_nil, ← hchunks]
    rfl
  last _ h := (List.not_mem_nil h).elim

end Nif

/-! ## The out-of-process backend -/

namespace CNode
variable {s : Surface} {e : Filling}

def generator : Generator where
  flavor := flavor
  includes := ["#include <string.h>"]
  helpers name := (encodeSignature name, decodeSignature name)
  enum := enumItems
  struct := structItems
  accessor := accessorItems
  send := sendItems
  signature := wrapperSignature
  wrapper := wrapperItems
  last s := dispatchItems s ++ [mainItem s]

theorem sourceItems_eq (name : String) (s : Surface) :
    sourceItems name s = generator.source s name :=
  List.append_assoc ..

theorem filled_tuple : Filled e [] []
    [.line ("bridge_encode_tuple_header(out, " ++ Text.decimal e.index ++ ");")] :=
  filled_of_check rfl

theorem frames_clause (c : Clause) : Frames [] (if 1 < c.items.length then
    [.line ("bridge_encode_tuple_header(out, " ++ Text.decimal c.items.length ++ ");")] else []) :=
  (@filled_tuple { index := c.items.length }).frames.ite

theorem parts_encodeClause (c : Clause) (n : Nat) :
    Parts (HandlesItem s) c.items ((encodeClause s c).run n).1 := by
  have h := Parts.wrap (frames_clause c).uses
    (parts_of_collect (fun item => (convertsItem (s := s) item).handles) c.items n) .nil
  rwa [List.append_nil] at h

theorem frames_reply : Frames ["out"] [.line "BridgeBuffer *out = bridge_reply_buffer(env);"] ∧
    Frames [] [.line "return bridge_reply(env);"] := by
  constructor
  all_goals exact frames_of_check rfl

theorem frames_send : Frames ["out"] [.line "BridgeBuffer *out = bridge_send_buffer(env);"] ∧
    Frames [] [.line "return bridge_send(env, &pid, flags);"] := by
  constructor
  all_goals exact frames_of_check rfl

theorem uses_mapHeader (he : e.Fits) :
    Uses [] [.line ("bridge_encode_map_header(out, " ++ Text.decimal e.index ++ ");")] :=
  uses_of_check he [] (by decide) rfl

theorem uses_structKey : Uses [] [.line "bridge_encode_atom(out, \"__struct__\");"] := by
  have h := (@filled_atom { quoted := "__struct__" }).frames.uses
  rwa [literal_struct] at h

/-- The loop over the keys of a map, in front of and behind the code for fields. -/
theorem uses_keys :
    Uses [] ([Step.line "int arity = 0;"]
        ++ block "if (!bridge_decode_map_header(buf, index, &arity))" [Step.line "return 0;"]
        ++ [Step.openBlock "for (int i = 0; i < arity; i++)", Step.line "char *key = NULL;"]
        ++ block "if (!bridge_decode_atom(buf, index, &key))" [Step.line "return 0;"]) ∧
      Uses [] (block "if (!bridge_skip_term(buf, index))" [Step.line "return 0;"]
        ++ [Step.closeBlock "", Step.line "return 1;"]) := by
  constructor
  all_goals exact uses_of_check (Filling.fits_plain 0 "") [] (by decide) rfl

theorem frames_unusedRequest (b : Bool) : Frames [] (if b then unusedRequest else []) := by
  unfold unusedRequest
  exact .ite (frames_of_check rfl)

theorem writes (s : Surface) : generator.Writes s where
  enum _ := ⟨_, _, rfl⟩
  struct d n := by
    have hhead := ((uses_mapHeader (Filling.fits_plain (d.members.length + 1) "")).append
      uses_structKey).append (@filled_atom { quoted := d.backing }).frames.uses
    have hencoded : Parts (fun m chunk => Handles s "value." m.name m.type chunk) d.members _ :=
      .wrap hhead (parts_of_collect handles_encodeMember d.members n) .nil
    have hdecoded (n : Nat) :
        Parts (fun m chunk => Handles s "out->" m.name m.type chunk) d.members _ :=
      .wrap uses_keys.1 (parts_of_collect handles_decodeMember d.members n) uses_keys.2
    simp only [block, blockWith, List.cons_append, List.nil_append] at hdecoded
    rw [List.append_nil] at hencoded
    refine .cons ⟨rfl, hencoded⟩ (.cons ⟨rfl, ?_⟩ .nil)
    simp only [block, blockWith, List.append_assoc, List.cons_append, List.nil_append]
    exact hdecoded _
  accessor f c n := .cons ⟨rfl, rfl,
    .wrap frames_reply.1.uses (parts_encodeClause c n) frames_reply.2.uses⟩ .nil
  send c n := .cons ⟨rfl, rfl,
    .wrap frames_send.1.uses (parts_encodeClause c n) frames_send.2.uses⟩ .nil
  wrapper f n := by
    obtain ⟨chunks, hchunks, hall⟩ :=
      exists_of_collect (fun p => (converts_decodeParam (s := s) p).handles) f.params n
    refine .cons ⟨rfl, rfl, [], chunks, _, ?_, .nil, (frames_unusedRequest f.params.isEmpty).uses,
      hall⟩ .nil
    rw [List.nil_append, ← hchunks]
    rfl
  last d h := by
    rcases List.mem_pair.mp h with rfl | rfl
    · rfl
    · rfl

end CNode

/-! ## Headers -/

namespace C

theorem filterMap_prototype?_titled (title : String) (items : List Item) :
    (titled title items).filterMap Item.prototype? = items.filterMap Item.prototype? := by
  rw [titled]
  split
  · rename_i hempty
    rw [List.isEmpty_iff.mp hempty]
  · simp [List.filterMap_cons]

theorem filterMap_prototype?_functionItems (returns : String) (s : Surface) :
    (functionItems returns s).filterMap Item.prototype? =
      s.functions.map (fun f => (Role.implementation f.name f.arity, implSignature returns s f))
        ++ s.functions.flatMap fun f => f.results.flatMap fun c =>
          [(accessorHead returns s f c).2] := by
  rw [functionItems]
  split
  · rename_i hempty
    rw [List.isEmpty_iff.mp hempty]
    rfl
  · simp [List.filterMap_cons, implPrototypes, accessorPrototypes, List.filterMap_flatMap,
      List.map_eq_flatMap, accessorHead]

theorem filterMap_prototype?_typeItems (s : Surface) :
    (typeItems s).filterMap Item.prototype? = [] := by
  rw [typeItems]
  split
  · simp [List.filterMap_flatMap, enumItems]
  · simp [List.filterMap_cons, List.filterMap_flatMap, List.filterMap_map, enumItems, structItems,
      structName, Function.comp_def]

/-- All prototypes of a header, in order. -/
theorem prototypes_of_header (flavor : Flavor) (name : String) (s : Surface) :
    (headerItems flavor name s).filterMap Item.prototype? =
      s.functions.map (fun f =>
          (Role.implementation f.name f.arity, implSignature flavor.returns s f))
        ++ (resultHeads flavor.returns s).map (·.2)
        ++ (s.callbacks.map (fun c => (Role.callback c.hook, callbackSignature c))
          ++ flavor.entryPoints.map (fun e => (Role.entry, e))) := by
  have hstate : (stateItems s).filterMap Item.prototype? = [] := by
    rw [stateItems]
    split
    · rfl
    · rfl
  have hsends : (s.sends.toList.flatMap fun c => [(sendHead s c).2]) =
      s.sends.toList.map fun c => (.send, sendSignature s c) :=
    List.map_eq_flatMap.symm
  simp [headerItems, prototypeItems, List.filterMap_cons, filterMap_prototype?_titled,
    filterMap_prototype?_functionItems, filterMap_prototype?_typeItems, hstate, banner, resultHeads,
    hsends, List.map_flatMap, List.filterMap_map, Function.comp_def]

theorem isResult_of_mem_resultHeads {returns : String} {s : Surface}
    {p : Clause × Role × Signature} (hp : p ∈ resultHeads returns s) : p.2.1.isResult := by
  simp only [resultHeads, List.mem_append, List.mem_flatMap, List.mem_singleton] at hp
  rcases hp with ⟨f, -, c, -, rfl⟩ | ⟨c, -, rfl⟩
  · rfl
  · rfl

/-- The prototypes of implementations stand first, and those of results behind them. -/
theorem prototypesOf_headerItems (flavor : Flavor) (name : String) (s : Surface) :
    prototypesOf Role.isImplementation (headerItems flavor name s) =
        s.functions.map (fun f =>
          (.implementation f.name f.arity, implSignature flavor.returns s f)) ∧
      prototypesOf Role.isResult (headerItems flavor name s) =
        (resultHeads flavor.returns s).map (·.2) := by
  have hback (p : Role → Bool) (h : ∀ hook, p (.callback hook) = false) (h' : p .entry = false) :
      ∀ x ∈ s.callbacks.map (fun c => (Role.callback c.hook, callbackSignature c))
        ++ flavor.entryPoints.map (fun e => (Role.entry, e)), p x.1 = false :=
    List.forall_mem_append.mpr ⟨List.forall_mem_map.mpr fun c _ => h c.hook,
      List.forall_mem_map.mpr fun _ _ => h'⟩
  rw [prototypesOf, prototypesOf, prototypes_of_header]
  constructor
  · rw [List.append_assoc]
    refine @filter_middle _ _ [] _ _ (fun _ h => (List.not_mem_nil h).elim)
      (List.forall_mem_map.mpr fun _ _ => rfl) (List.forall_mem_append.mpr
        ⟨List.forall_mem_map.mpr fun p hp => ?_, hback _ (fun _ => rfl) rfl⟩)
    exact (p.2.1.of_isResult (isResult_of_mem_resultHeads hp)).2
  · exact filter_middle (List.forall_mem_map.mpr fun _ _ => rfl)
      (List.forall_mem_map.mpr fun p hp => isResult_of_mem_resultHeads hp)
      (hback _ (fun _ => rfl) rfl)

/-! ## Sections by role -/

theorem map_eq_of_forall₂ {α β γ : Type} {R : α → β → Prop} {f : α → γ} {g : β → γ}
    {xs : List α} {ys : List β} (h : List.Forall₂ R xs ys) (hR : ∀ x y, R x y → f x = g y) :
    xs.map f = ys.map g := by
  induction h with
  | nil => rfl
  | cons hxy _ ih => rw [List.map_cons, List.map_cons, hR _ _ hxy, ih]

theorem forall_mem_of_forall₂ {α β : Type} {R : α → β → Prop} {Q : β → Prop} {xs : List α}
    {ys : List β} (h : List.Forall₂ R xs ys) (hR : ∀ x y, R x y → Q y) : ∀ y ∈ ys, Q y := by
  induction h with
  | nil => exact fun y hy => (List.not_mem_nil hy).elim
  | cons hxy _ ih => exact List.forall_mem_cons.mpr ⟨hR _ _ hxy, ih⟩

/-- Of what a source defines, these are the accessors and the message, and these the wrappers. -/
theorem Generator.Writes.definitionsOf {g : Generator} {s : Surface} (h : g.Writes s)
    (name : String) :
    ∃ n₁ n₂ n₃,
      definitionsOf Role.isResult (g.source s name) =
        (g.results s n₁ n₂).filterMap Item.definition? ∧
      definitionsOf Role.isWrapper (g.source s name) =
        ((g.wrappers s).run n₃).1.filterMap Item.definition? := by
  obtain ⟨n₁, n₂, n₃, hsource⟩ := g.exists_defined s name
  have hfront : (g.front s name).filterMap Item.definition? = [] := by
    simp [front, banner, or_imp, forall_and]
  have hdefs : (g.source s name).filterMap Item.definition? =
      ((s.enums.flatMap g.enum).filterMap Item.definition?
          ++ ((g.structs s).run 0).1.filterMap Item.definition?)
        ++ (g.results s n₁ n₂).filterMap Item.definition?
        ++ (((g.wrappers s).run n₃).1.filterMap Item.definition?
          ++ (g.last s).filterMap Item.definition?) := by
    rw [hsource, List.filterMap_append, hfront, List.nil_append, List.cons_append,
      List.filterMap_cons_none rfl, defined]
    simp only [List.filterMap_append, List.append_assoc]
  -- the roles tell the sections apart
  have hhelpers (p : Role → Bool) (hp : ∀ name, p (.conversion name) = false) :
      ∀ d ∈ (s.enums.flatMap g.enum).filterMap Item.definition?
        ++ ((g.structs s).run 0).1.filterMap Item.definition?, p d.role = false := by
    refine List.forall_mem_append.mpr ⟨fun d hd => ?_,
      forall_mem_of_forall₂ (h.structs 0) fun x d hd => ?_⟩
    · obtain ⟨name, hrole⟩ := h.enums.2 d hd
      rw [hrole, hp]
    · rw [(Prod.mk.inj hd.1).1, hp]
  have hresults : ∀ d ∈ (g.results s n₁ n₂).filterMap Item.definition?, d.role.isResult :=
    forall_mem_of_forall₂ (h.results n₁ n₂) fun _ _ hd => hd.2.1
  have hwrappers : ∀ d ∈ ((g.wrappers s).run n₃).1.filterMap Item.definition?,
      d.role.isWrapper ∧ d.role.isResult = false :=
    forall_mem_of_forall₂ (forall₂_wrappers h.wrapper n₃) fun _ d hd => by
      rw [hd.1]
      exact ⟨rfl, rfl⟩
  have hlast (p : Role → Bool) (hp : p .entry = false) :
      ∀ d ∈ (g.last s).filterMap Item.definition?, p d.role = false := fun d hd => by
    rw [h.last d hd, hp]
  refine ⟨n₁, n₂, n₃, ?_, ?_⟩
  · rw [C.definitionsOf, hdefs]
    exact filter_middle (hhelpers _ fun _ => rfl) hresults
      (List.forall_mem_append.mpr ⟨fun d hd => (hwrappers d hd).2, hlast _ rfl⟩)
  · rw [C.definitionsOf, hdefs, ← List.append_assoc]
    exact filter_middle (List.forall_mem_append.mpr ⟨hhelpers _ fun _ => rfl,
      fun d hd => (d.role.of_isResult (hresults d hd)).1⟩) (fun d hd => (hwrappers d hd).1)
      (hlast _ rfl)

/-- The header declares the fields of every struct. -/
theorem struct_mem_header (flavor : Flavor) (name : String) {s : Surface} {d : Struct}
    (hd : d ∈ s.structs) :
    .group ("struct " ++ ident d.name ++ "_t")
      ((d.members.flatMap fun m => valueDecls s m.name m.type).map fun decl => .line (decl ++ ";"))
      ";" ∈ headerItems flavor name s := by
  have hmem : .group ("struct " ++ ident d.name ++ "_t")
      ((d.members.flatMap fun m => valueDecls s m.name m.type).map fun decl => .line (decl ++ ";"))
      ";" ∈ s.structs.flatMap (structItems s) :=
    List.mem_flatMap.mpr ⟨d, hd, List.mem_cons_self⟩
  have hne : ¬s.structs.isEmpty := by
    intro hempty
    rw [List.isEmpty_iff.mp hempty] at hd
    exact List.not_mem_nil hd
  simp only [headerItems, typeItems, if_neg hne, List.mem_append, List.mem_cons, hmem, or_true,
    true_or]

end C

end NativeInterface
