import NativeInterface.Proofs.FilesAgree
import NativeInterface.Proofs.Literals
import NativeInterface.Proofs.Meaning
import NativeInterface.Proofs.Spelling

/-!
# Routing of requests

A request names a function and an arity. One backend looks it up in a table of rows, the other in a
chain of comparisons. Both are read here from the lines of the generated source, with string
literals as C reads them, and so are the functions that they refer to, each by its C name (`named`).
The two answer the same requests, each with the wrapper of the requested function (`Routes`), and
that wrapper looks at each argument of the request (`ReadsArguments`).

Two names may have one C identifier. Then two wrappers have one name, and an entry that refers to
one of them refers to both. `NamedAlone` says for which functions this does not happen.
-/

namespace NativeInterface.C
variable {fronts : List String} {k : Convention} {s : Surface}

/-! ## Reading text -/

/-- What stands behind a fixed text. -/
def behind? (front : String) (text : List Char) : Option (List Char) :=
  if front.toList.isPrefixOf text then some (text.drop front.toList.length) else none

/-- The identifier or number in front of a text, and the rest. -/
def readWord (text : List Char) : String × List Char :=
  (String.ofList (text.takeWhile isIdentChar), text.dropWhile isIdentChar)

theorem behind?_append (front : String) (rest : List Char) :
    behind? front (front.toList ++ rest) = some rest := by
  rw [behind?, if_pos (List.isPrefixOf_iff_prefix.mpr (List.prefix_append _ _)), List.drop_left]

theorem readWord_append {word : String} (hword : IsIdent word) {rest : List Char}
    (hrest : ∀ c ∈ rest.head?, ¬isIdentChar c) :
    readWord (word.toList ++ rest) = (word, rest) := by
  have hnil : rest.takeWhile isIdentChar = [] ∧ rest.dropWhile isIdentChar = rest := by
    cases rest with
    | nil => exact ⟨rfl, rfl⟩
    | cons c rest =>
      have hc := hrest c rfl
      exact ⟨List.takeWhile_cons_of_neg hc, List.dropWhile_cons_of_neg hc⟩
  rw [readWord, List.takeWhile_append_of_pos hword, List.dropWhile_append_of_pos hword, hnil.1,
    hnil.2, List.append_nil, String.ofList_toList]

theorem readDecimal_decimal (n : Nat) : Text.readDecimal (Text.decimal n).toList = some n := by
  rw [Text.decimal, String.toList_ofList, Lexeme.readDecimal_toDigits]

/-! ## Names of what stands in braces -/

/-- A character behind which no name of a function or a table stands. -/
def isOpening (c : Char) : Bool := c = '(' || c = '['

/-- The name of a function or a table: the identifier in front of the first bracket. -/
def headName (head : String) : String :=
  declaredName (String.ofList (head.toList.takeWhile (!isOpening ·)))

def Braced.name (d : Braced) : String := headName d.head

/-- The functions and tables of a source that have a name. -/
def named (name : String) (source : List String) : List Braced :=
  (braced source).filter (·.name = name)

theorem headName_headText {front returns name : String} {params : List String}
    (hfront : (front ++ returns).toList.all (!isOpening ·)) (hname : IsIdent name) :
    headName (front ++ headText returns name params) = name := by
  have hhead : (front ++ headText returns name params).toList =
      (front ++ returns ++ " " ++ name).toList ++ '(' :: (Text.join ", " params ++ ")").toList := by
    simp [headText]
  have hident : ∀ c ∈ name.toList, !isOpening c := by
    intro c hc
    have hchar := hname c hc
    have hne : c ≠ '(' ∧ c ≠ '[' := by
      constructor
      all_goals
        rintro rfl
        cases hchar
    simp [isOpening, hne]
  have hall : ∀ c ∈ (front ++ returns ++ " " ++ name).toList, !isOpening c := by
    rw [String.toList_append, String.toList_append]
    exact List.forall_mem_append.mpr
      ⟨List.forall_mem_append.mpr ⟨List.all_eq_true.mp hfront, by simp [isOpening]⟩, hident⟩
  have hlast : (front ++ returns ++ " ").toList.getLast? = some ' ' := by simp
  rw [headName, hhead, List.takeWhile_append_of_pos hall, List.takeWhile_cons_of_neg (by decide),
    List.append_nil, String.ofList_toList, declaredName_append hlast (by decide) hname]

/-- Texts with different starts, neither of which continues the other. -/
theorem append_ne_append {a b : String}
    (h : ¬a.toList <+: b.toList ∧ ¬b.toList <+: a.toList) (x y : String) : a ++ x ≠ b ++ y := by
  intro heq
  have hlists := congrArg String.toList heq
  rw [String.toList_append, String.toList_append] at hlists
  rcases List.prefix_or_prefix_of_prefix (List.prefix_append a.toList x.toList)
    (hlists ▸ List.prefix_append b.toList y.toList) with hab | hba
  · exact h.1 hab
  · exact h.2 hba

/-- The C name of the wrapper of a function. -/
def Convention.symbol (k : Convention) (f : NativeFunction) : String :=
  k.stem ++ ident f.name ++ "_" ++ Text.decimal f.arity

/-- What the names of a backend start with keeps its functions apart from those of a surface. -/
structure Convention.Plain (k : Convention) (fronts : List String) : Prop where
  returns : k.returns.toList.all (!isOpening ·)
  stem : IsIdent k.stem
  helpers : ∀ type, IsIdent type → ∀ head ∈ [(k.helpers type).1, (k.helpers type).2],
    ∃ front ∈ fronts, headName head = front ++ type
  apart : ∀ front ∈ "send_" :: fronts,
    ¬front.toList <+: k.stem.toList ∧ ¬k.stem.toList <+: front.toList
  last : ∀ head ∈ k.last, ¬k.stem.toList <+: (headName head).toList

/-- The function is the only one with the C identifier of its name and its arity, and no accessor is
called like its wrapper. -/
structure NamedAlone (k : Convention) (s : Surface) (f : NativeFunction) : Prop where
  functions : ∀ g ∈ s.functions, ident g.name = ident f.name → g.arity = f.arity → g.name = f.name
  accessors : ∀ g ∈ s.functions, ∀ c ∈ g.results, accessorName s g c ≠ k.symbol f

theorem symbol_eq_iff (k : Convention) {f g : NativeFunction} :
    k.symbol g = k.symbol f ↔ ident g.name = ident f.name ∧ g.arity = f.arity := by
  constructor
  · exact wrapper_inj
  · rintro ⟨hname, harity⟩
    rw [Convention.symbol, hname, harity, Convention.symbol]

/-- The C names of what a source defines, in order. -/
def symbols (k : Convention) (s : Surface) : List String :=
  (s.enums.flatMap fun e => [headName (k.helpers (ident e.name)).1,
      headName (k.helpers (ident e.name)).2])
    ++ (s.structs.flatMap fun d => [headName (k.helpers (ident d.name)).1,
      headName (k.helpers (ident d.name)).2])
    ++ (s.functions.flatMap fun f => f.results.map (accessorName s f))
    ++ s.sends.toList.map (fun c => ident c.accessor)
    ++ s.functions.map k.symbol ++ k.last.map headName

section names
variable {header source : List String} {o : Outline} {d : Braced} {a : String}

theorem isIdent_symbol (hk : k.Plain fronts) (f : NativeFunction) : IsIdent (k.symbol f) :=
  ((hk.stem.append (isIdent_ident _)).append (isIdent_of_all (by decide))).append
    (isIdent_decimal _)

theorem isIdent_accessorName (s : Surface) (f : NativeFunction) (c : Clause) :
    IsIdent (accessorName s f c) := by
  rw [accessorName]
  split
  · exact isIdent_ident _
  · exact isIdent_ident _

theorem Wraps.name (hk : k.Plain fronts) {f : NativeFunction} {prototype : String}
    (h : Wraps k f prototype d) : d.name = k.symbol f := by
  have hfront : ("static " ++ k.returns).toList.all (!isOpening ·) := by
    rw [String.toList_append, List.all_append, hk.returns, Bool.and_true]
    rfl
  rw [Braced.name, h.head]
  exact headName_headText hfront (isIdent_symbol hk f)

theorem Makes.name (front : List String) {returns name : String}
    (hreturns : returns.toList.all (!isOpening ·)) (hname : IsIdent name) {c : Clause}
    (h : Makes (fun decls => headText returns name (front ++ decls)) c d) : d.name = name := by
  obtain ⟨decls, hhead, -⟩ := h.head
  have hfront : ("" ++ returns).toList.all (!isOpening ·) := by
    rw [String.empty_append]
    exact hreturns
  have hread : headName ("" ++ headText returns name (front ++ decls)) = name :=
    headName_headText hfront hname
  rw [String.empty_append] at hread
  rw [Braced.name, hhead, hread]

/-- The names of what a reader of a source finds in braces. -/
theorem Agree.names (h : Agree k s header source o) (hk : k.Plain fronts) :
    (braced source).map (·.name) = symbols k s := by
  have henums : o.enums.map (·.name) = s.enums.flatMap fun e =>
      [headName (k.helpers (ident e.name)).1, headName (k.helpers (ident e.name)).2] := by
    have hheads := congrArg (List.map headName) h.enums
    rw [List.map_map, List.map_flatMap] at hheads
    exact hheads
  have hstructs : o.structs.map (·.name) = s.structs.flatMap fun d =>
      [headName (k.helpers (ident d.name)).1, headName (k.helpers (ident d.name)).2] := by
    have hheads := map_eq_of_forall₂ h.conversions fun p d hd => hd.1.symm
    have hnames := congrArg (List.map headName) hheads
    rw [List.map_map, List.map_map, List.map_flatMap] at hnames
    exact hnames.symm
  have haccessors : o.accessors.map (·.name) =
      s.functions.flatMap fun f => f.results.map (accessorName s f) := by
    have hnames : (s.functions.flatMap fun f => f.results.map fun c => (f, c)).map
        (fun p => accessorName s p.1 p.2) = o.accessors.map (·.name) :=
      map_eq_of_forall₂ h.accessors fun p d hd =>
        (Makes.name ["BridgeEnv *env"] hk.returns (isIdent_accessorName _ _ _) hd).symm
    rw [← hnames, List.map_flatMap]
    simp only [List.map_map, Function.comp_def]
  have hmessages : o.messages.map (·.name) = s.sends.toList.map fun c => ident c.accessor :=
    (map_eq_of_forall₂ h.messages fun c d hd =>
      (Makes.name ["BridgeEnv *env", "BridgePid pid", "int flags"] (by decide) (isIdent_ident _)
        hd).symm).symm
  have hwrappers : o.wrappers.map (·.name) = s.functions.map k.symbol := by
    have hnames : (s.functions.zip (under "native implementations" header)).map
        (fun p => k.symbol p.1) = o.wrappers.map (·.name) :=
      map_eq_of_forall₂ h.wrappers fun p d hd => (Wraps.name hk hd).symm
    have hzip := List.map_fst_zip (Nat.le_of_eq h.implementations.symm)
    rw [← hnames]
    conv_rhs => rw [← hzip, List.map_map]
    rfl
  have hlast : o.last.map (·.name) = k.last.map headName := by
    rw [← h.last, List.map_map]
    rfl
  rw [h.source, symbols]
  simp only [List.map_append, henums, hstructs, haccessors, hmessages, hwrappers, hlast]

theorem length_named (h : Agree k s header source o) (hk : k.Plain fronts) (name : String) :
    (named name source).length = (symbols k s).count name := by
  rw [named, ← List.countP_eq_length_filter, ← h.names hk, List.count, List.countP_map]
  exact List.countP_congr fun d _ => by simp

/-- A list with one element of a name. -/
theorem named_eq_singleton {name : String} (h : (named name source).length = 1)
    (hd : d ∈ named name source) : named name source = [d] := by
  obtain ⟨d', hd'⟩ := List.length_eq_one_iff.mp h
  rw [hd'] at hd ⊢
  rw [List.mem_singleton.mp hd]

/-! ### Names that are taken once -/

/-- What requests rest on in a surface: no two functions have one name and arity, and accessors are
named after their labels. -/
structure Addressed (s : Surface) : Prop where
  keys : (s.functions.map NativeFunction.key).Nodup
  arities : ∀ f ∈ s.functions, f.arity = f.params.length
  indexed : ∀ f ∈ s.functions, f.Indexed
  sends : ∀ c ∈ s.sends, c.accessor = "send_" ++ Text.join "_" c.labels

theorem addressed_of_build {name : String} {ds : List Declaration}
    (h : Surface.build name ds = .ok s) : Addressed s := by
  obtain ⟨hindexed, hsends⟩ := Surface.indexed_of_build h
  obtain ⟨b, rfl, hkeys, -⟩ := Surface.exists_builder h
  exact ⟨hkeys.functions, hkeys.arities, hindexed, hsends⟩

/-- No helper of a type has a name that starts otherwise. -/
theorem count_helpers (hk : k.Plain fronts)
    (h : ∀ front ∈ fronts, ¬a.toList <+: front.toList ∧ ¬front.toList <+: a.toList) (x : String)
    {α : Type} (type : α → String) (xs : List α) :
    (xs.flatMap fun y => [headName (k.helpers (ident (type y))).1,
      headName (k.helpers (ident (type y))).2]).count (a ++ x) = 0 := by
  rw [List.count_eq_zero]
  intro hmem
  obtain ⟨y, -, hy⟩ := List.mem_flatMap.mp hmem
  have hhead : ∀ head ∈ [(k.helpers (ident (type y))).1, (k.helpers (ident (type y))).2],
      a ++ x ≠ headName head := by
    intro head hhead
    obtain ⟨front, hfront, hname⟩ := hk.helpers _ (isIdent_ident (type y)) head hhead
    rw [hname]
    exact append_ne_append (h front hfront) _ _
  rcases List.mem_pair.mp hy with hy | hy
  · exact hhead _ List.mem_cons_self hy
  · exact hhead _ (List.mem_cons_of_mem _ List.mem_cons_self) hy

theorem count_sends (hs : Addressed s)
    (h : ¬a.toList <+: "send_".toList ∧ ¬"send_".toList <+: a.toList) (x : String) :
    (s.sends.toList.map fun c => ident c.accessor).count (a ++ x) = 0 := by
  rw [List.count_eq_zero]
  intro hmem
  obtain ⟨c, hc, heq⟩ := List.mem_map.mp hmem
  have hform := hs.sends c (Option.mem_toList.mp hc)
  obtain ⟨rest, hrest⟩ := sendMark_prefix_ident (Text.join "_" c.labels)
  have hname : ident c.accessor = "send_" ++ String.ofList rest := by
    rw [hform, ← String.toList_inj, ← hrest, String.toList_append]
    exact congrArg (sendMark ++ ·) String.toList_ofList.symm
  exact append_ne_append h x _ (heq.symm.trans hname)

/-- How often the name of a wrapper is taken: by wrappers and by accessors. -/
theorem count_symbol (hk : k.Plain fronts) (hs : Addressed s) (f : NativeFunction) :
    (symbols k s).count (k.symbol f) =
      (s.functions.flatMap fun g => g.results.map (accessorName s g)).count (k.symbol f)
        + (s.functions.map k.symbol).count (k.symbol f) := by
  obtain ⟨rest, hrest⟩ : ∃ rest, k.symbol f = k.stem ++ rest :=
    ⟨ident f.name ++ "_" ++ Text.decimal f.arity, by
      simp only [Convention.symbol, String.append_assoc]⟩
  have hapart := List.forall_mem_cons.mp hk.apart
  have hfronts (front : String) (hfront : front ∈ fronts) := (hapart.2 front hfront).symm
  have hlast : (k.last.map headName).count (k.symbol f) = 0 := by
    rw [List.count_eq_zero]
    intro hmem
    obtain ⟨head, hhead, heq⟩ := List.mem_map.mp hmem
    refine hk.last head hhead ?_
    rw [heq, hrest, String.toList_append]
    exact List.prefix_append _ _
  have henums := count_helpers hk hfronts rest Enum.name s.enums
  have hstructs := count_helpers hk hfronts rest Struct.name s.structs
  have hmessages := count_sends hs hapart.1.symm rest
  rw [← hrest] at henums hstructs hmessages
  simp only [symbols, List.count_append, henums, hstructs, hmessages, hlast, Nat.zero_add,
    Nat.add_zero]

/-- A name that no function of a surface can have is taken by what stands last only. -/
theorem count_last (hk : k.Plain fronts) (hs : Addressed s)
    (hapart : ∀ front ∈ k.stem :: "send_" :: fronts,
      ¬a.toList <+: front.toList ∧ ¬front.toList <+: a.toList) (hmark : ¬resultMark <:+: a.toList) :
    (symbols k s).count a = (k.last.map headName).count a := by
  rw [List.forall_mem_cons, List.forall_mem_cons] at hapart
  obtain ⟨hstem, hsend, hfronts⟩ := hapart
  have haccessors :
      (s.functions.flatMap fun f => f.results.map (accessorName s f)).count a = 0 := by
    rw [List.count_eq_zero]
    intro hmem
    obtain ⟨f, hf, hmem⟩ := List.mem_flatMap.mp hmem
    obtain ⟨c, hc, rfl⟩ := List.mem_map.mp hmem
    refine hmark ?_
    rw [toList_accessorName ((hs.indexed f hf).1 c hc), ← List.append_assoc]
    exact List.infix_append _ _ _
  have hwrappers : (s.functions.map k.symbol).count a = 0 := by
    rw [List.count_eq_zero]
    intro hmem
    obtain ⟨f, -, heq⟩ := List.mem_map.mp hmem
    refine append_ne_append hstem "" (ident f.name ++ "_" ++ Text.decimal f.arity) ?_
    rw [String.append_empty, ← heq]
    simp only [Convention.symbol, String.append_assoc]
  have henums := count_helpers hk hfronts "" Enum.name s.enums
  have hstructs := count_helpers hk hfronts "" Struct.name s.structs
  have hmessages := count_sends hs hsend ""
  rw [String.append_empty] at henums hstructs hmessages
  simp only [symbols, List.count_append, henums, hstructs, hmessages, haccessors, hwrappers,
    Nat.zero_add]

end names

/-! ## Requests -/

theorem length_filter_key_le_one {α κ : Type} [DecidableEq κ] {key : α → κ} {xs : List α}
    (h : (xs.map key).Nodup) (x : κ) : (xs.filter (key · = x)).length ≤ 1 := by
  have hcount := List.nodup_iff_count_le_one.mp h x
  rw [List.count, List.countP_map, List.countP_eq_length_filter] at hcount
  exact hcount

/-- The name of a wrapper is taken once exactly if the function is named alone. -/
theorem count_symbol_eq_one (hk : k.Plain fronts) (hs : Addressed s) {f : NativeFunction}
    (hf : f ∈ s.functions) : (symbols k s).count (k.symbol f) = 1 ↔ NamedAlone k s f := by
  have hpos : 0 < (s.functions.map k.symbol).count (k.symbol f) :=
    List.count_pos_iff.mpr (List.mem_map_of_mem hf)
  have haccessors : (s.functions.flatMap fun g => g.results.map (accessorName s g)).count
      (k.symbol f) = 0 ↔ ∀ g ∈ s.functions, ∀ c ∈ g.results, accessorName s g c ≠ k.symbol f := by
    simp only [List.count_eq_zero, List.mem_flatMap, List.mem_map, not_exists, not_and]
  have hwrappers : (s.functions.map k.symbol).count (k.symbol f) ≤ 1 ↔ ∀ g ∈ s.functions,
      ident g.name = ident f.name → g.arity = f.arity → g.name = f.name := by
    have hfilter : (s.functions.map k.symbol).count (k.symbol f) =
        (s.functions.filter (k.symbol · = k.symbol f)).length := by
      rw [List.count, List.countP_map, ← List.countP_eq_length_filter]
      exact List.countP_congr fun g _ => by simp
    have hmem : f ∈ s.functions.filter (k.symbol · = k.symbol f) :=
      List.mem_filter.mpr ⟨hf, decide_eq_true rfl⟩
    rw [hfilter]
    constructor
    · intro hle g hg hname harity
      have hsymbol := (symbol_eq_iff k).mpr ⟨hname, harity⟩
      have hg : g ∈ s.functions.filter (k.symbol · = k.symbol f) :=
        List.mem_filter.mpr ⟨hg, decide_eq_true hsymbol⟩
      obtain ⟨x, hx⟩ := List.length_eq_one_iff.mp
        (Nat.le_antisymm hle (List.length_pos_of_mem hmem))
      rw [hx, List.mem_singleton] at hmem hg
      rw [hg, hmem]
    · intro halone
      have hsame : s.functions.filter (k.symbol · = k.symbol f) =
          s.functions.filter (NativeFunction.key · = f.key) := by
        refine List.filter_congr fun g hg => ?_
        rw [decide_eq_decide, symbol_eq_iff]
        constructor
        · rintro ⟨hname, harity⟩
          exact Prod.ext (halone g hg hname harity) harity
        · intro hkey
          obtain ⟨hname, harity⟩ := Prod.mk.inj hkey
          exact ⟨congrArg ident hname, harity⟩
      rw [hsame]
      exact length_filter_key_le_one hs.keys f.key
  rw [count_symbol hk hs]
  constructor
  · intro hone
    exact ⟨hwrappers.mp (by omega), haccessors.mp (by omega)⟩
  · rintro ⟨hfunctions, hothers⟩
    have hle := hwrappers.mpr hfunctions
    have hzero := haccessors.mpr hothers
    omega

/-- A table of a source answers a request if it is for a function of the surface and not otherwise,
with one entry, which refers to the wrapper of that function: a definition of that name which has
the head of the wrapper and passes on what the prototype of the implementation declares. It is the
only one of that name exactly if the function is named alone. -/
structure Routes {α : Type} (k : Convention) (key : α → String × Nat) (target : α → String)
    (P : NativeFunction → List String → Prop) (s : Surface) (header source : List String)
    (table : List α) (request : String × Nat) : Prop where
  found : (table.find? (key · = request)).isSome ↔ (s.function? request.1 request.2).isSome
  single : (table.filter (key · = request)).length ≤ 1
  wrapper : ∀ entry f, table.find? (key · = request) = some entry →
    s.function? request.1 request.2 = some f →
    ∃ d ∈ named (target entry) source,
      (∃ prototype, (f, prototype) ∈ s.functions.zip (under "native implementations" header) ∧
        Wraps k f prototype d) ∧
      P f d.body ∧ (named (target entry) source = [d] ↔ NamedAlone k s f)

theorem function?_eq_find? (s : Surface) (request : String × Nat) :
    s.function? request.1 request.2 = s.functions.find? (NativeFunction.key · = request) := by
  rw [Surface.function?]
  congr 1
  funext f
  rw [Bool.eq_iff_iff]
  simp [NativeFunction.key, Prod.ext_iff]

/-- What is related to the first of pairs and what is related to pairs, one behind the other. -/
theorem exists_of_forall₂_zip {α β γ : Type} {R : α × β → γ → Prop} {Q : α → γ → Prop}
    {xs : List α} {ys : List β} {zs : List γ} (hR : List.Forall₂ R (xs.zip ys) zs)
    (hQ : List.Forall₂ Q xs zs) {x : α} (hx : x ∈ xs) :
    ∃ y, ∃ z ∈ zs, (x, y) ∈ xs.zip ys ∧ R (x, y) z ∧ Q x z := by
  induction hQ generalizing ys with
  | nil => cases hx
  | cons hxz _ ih =>
    cases ys with
    | nil => cases hR
    | cons y ys =>
      rw [List.zip_cons_cons] at hR ⊢
      obtain ⟨hyz, hR⟩ := List.forall₂_cons.mp hR
      rcases List.mem_cons.mp hx with rfl | hx
      · exact ⟨y, _, List.mem_cons_self, List.mem_cons_self, hyz, hxz⟩
      · obtain ⟨y, z, hz, hmem, hrelated⟩ := ih hR hx
        exact ⟨y, z, List.mem_cons_of_mem _ hz, List.mem_cons_of_mem _ hmem, hrelated⟩

/-- Tables that have one entry for each function route requests. -/
theorem routes_of_functions {α : Type} (hk : k.Plain fronts) (hs : Addressed s)
    {key : α → String × Nat} {target : α → String} {P : NativeFunction → List String → Prop}
    {entry : NativeFunction → α} (hkey : ∀ f, key (entry f) = f.key)
    (htarget : ∀ f, target (entry f) = k.symbol f)
    {header source : List String} {o : Outline} (h : Agree k s header source o)
    (hP : List.Forall₂ (fun f d => P f d.body) s.functions o.wrappers) (request : String × Nat) :
    Routes k key target P s header source (s.functions.map entry) request := by
  have hfind : (s.functions.map entry).find? (key · = request) =
      (s.function? request.1 request.2).map entry := by
    rw [List.find?_map, function?_eq_find?]
    simp only [Function.comp_def, hkey]
  constructor
  · rw [hfind, Option.isSome_map]
  · refine length_filter_key_le_one ?_ request
    rw [List.map_map, Function.comp_def, funext hkey]
    exact hs.keys
  · intro e f he hf
    rw [hfind, hf] at he
    obtain rfl := Option.some.inj he
    rw [function?_eq_find?] at hf
    have hmem := List.mem_of_find?_eq_some hf
    obtain ⟨prototype, d, hd, hprototype, hwraps, hPd⟩ := exists_of_forall₂_zip h.wrappers hP hmem
    have hnamed : d ∈ named (target (entry f)) source := by
      refine List.mem_filter.mpr ⟨?_, decide_eq_true ?_⟩
      · rw [h.source]
        exact List.mem_append_left _ (List.mem_append_right _ hd)
      · rw [htarget, Wraps.name hk hwraps]
    refine ⟨d, hnamed, ⟨prototype, hprototype, hwraps⟩, hPd, ?_⟩
    rw [← count_symbol_eq_one hk hs hmem, ← htarget, ← length_named h hk]
    exact ⟨fun hsingle => by rw [hsingle]; rfl, fun hone => named_eq_singleton hone hnamed⟩

/-- What stands last is found by its name, if that is a name that no function of a surface has. -/
theorem named_of_last (hk : k.Plain fronts) (hs : Addressed s) {header source : List String}
    {o : Outline} (h : Agree k s header source o) {a : String}
    (hapart : ∀ front ∈ k.stem :: "send_" :: fronts,
      ¬a.toList <+: front.toList ∧ ¬front.toList <+: a.toList) (hmark : ¬resultMark <:+: a.toList)
    (hone : (k.last.map headName).count a = 1) {d : Braced} (hd : d ∈ o.last) (hname : d.name = a) :
    named a source = [d] := by
  refine named_eq_singleton ?_ (List.mem_filter.mpr ⟨?_, decide_eq_true hname⟩)
  · rw [length_named h hk, count_last hk hs hapart hmark, hone]
  · rw [h.source]
    exact List.mem_append_right _ hd

/-! ## Arguments -/

/-- Of the arguments of a request, a wrapper reads each that belongs to its arity. It subscripts the
request at no other place exactly if no parameter that is a list is called like the request: the
elements of that one are numbered by a variable. -/
structure ReadsArguments (f : NativeFunction) (body : List String) : Prop where
  all : ∀ i < f.arity, ("argv", Text.decimal i) ∈ body.flatMap subscriptsIn
  bounded : (∀ place, ("argv", place) ∈ body.flatMap subscriptsIn →
      ∃ i < f.arity, place = Text.decimal i) ↔
    ∀ p ∈ f.params, p.type.isList → ident p.name ≠ "argv"

/-- A loop variable is no number. -/
theorem variable_ne_decimal (n i : Nat) : "i_" ++ Text.decimal n ≠ Text.decimal i := by
  intro heq
  have hmem : '_' ∈ (Text.decimal i).toList := by
    rw [← heq]
    simp
  rw [Text.decimal, String.toList_ofList] at hmem
  exact underscore_notMem_toDigits i hmem

/-- Arguments that are counted from zero are those of the request. -/
theorem ReadsPlaces.readsArguments {f : NativeFunction} (harity : f.arity = f.params.length)
    {body : List String} (h : ReadsPlaces f.params.zipIdx (body.flatMap subscriptsIn)) :
    ReadsArguments f body where
  all i hi := by
    have hlt : i < f.params.length := harity ▸ hi
    have hmem : (f.params[i], i) ∈ f.params.zipIdx :=
      List.mk_mem_zipIdx_iff_getElem?.mpr (List.getElem?_eq_getElem hlt)
    exact h.all _ hmem
  bounded := by
    constructor
    · intro hbounded p hp hlist hname
      obtain ⟨i, hi⟩ := List.mem_iff_getElem?.mp hp
      obtain ⟨n, hn⟩ := h.lists (p, i) (List.mk_mem_zipIdx_iff_getElem?.mpr hi) hlist
      rw [hname] at hn
      obtain ⟨j, -, hplace⟩ := hbounded _ hn
      exact variable_ne_decimal n j hplace
    · intro hnames place hplace
      obtain ⟨x, hx, hread⟩ := h.only _ hplace
      have hget : f.params[x.2]? = some x.1 := List.mk_mem_zipIdx_iff_getElem?.mp hx
      obtain ⟨hlt, -⟩ := List.getElem?_eq_some_iff.mp hget
      rcases hread with hread | ⟨hlist, n, hread⟩
      · exact ⟨x.2, harity ▸ hlt, (Prod.mk.inj hread).2⟩
      · have hname := (Prod.mk.inj hread).1
        exact absurd hname.symm (hnames x.1 (List.mem_of_getElem? hget) hlist)

end NativeInterface.C

namespace NativeInterface
open C

/-! ## The in-process backend -/

namespace Nif

theorem convention_plain : convention.Plain ["make_", "get_"] where
  returns := rfl
  stem := isIdent_of_all rfl
  helpers type htype := by
    have hmake : IsIdent ("make_" ++ type) := IsIdent.append (isIdent_of_all rfl) htype
    have hget : IsIdent ("get_" ++ type) := IsIdent.append (isIdent_of_all rfl) htype
    exact List.forall_mem_cons.mpr ⟨⟨"make_", by decide, headName_headText rfl hmake⟩,
      List.forall_mem_singleton.mpr ⟨"get_", by decide, headName_headText rfl hget⟩⟩
  apart := by decide
  last := by decide

/-- Read a row of the table. -/
def ExportRow.ofLine? (line : String) : Option ExportRow := do
  let name ← readLiteral? (← behind? "  \x7b" line.toList)
  let arity := readWord (← behind? ", " name.2)
  let wrapper := readWord (← behind? ", " arity.2)
  let flags := readWord (← behind? ", " wrapper.2)
  if flags.2 = "\x7d,".toList then
    return ⟨String.ofList name.1, ← Text.readDecimal arity.1.toList, wrapper.1, flags.1⟩
  else none

/-- The request that a row answers. -/
def ExportRow.key (r : ExportRow) : String × Nat := (r.name, r.arity)

theorem ExportRow.ofLine?_text {r : ExportRow} (hwrapper : IsIdent r.wrapper)
    (hflags : IsIdent r.flags) : ofLine? ("  " ++ r.text) = some r := by
  have hcomma (rest : List Char) : ∀ c ∈ (", ".toList ++ rest).head?, ¬isIdentChar c := by
    intro c hc
    cases hc
    decide
  have hend : ∀ c ∈ "\x7d,".toList.head?, ¬isIdentChar c := by
    intro c hc
    cases hc
    decide
  have htext : ("  " ++ r.text).toList = "  \x7b".toList ++ ((literal r.name).toList ++ (", ".toList
      ++ ((Text.decimal r.arity).toList ++ (", ".toList ++ (r.wrapper.toList ++ (", ".toList
      ++ (r.flags.toList ++ "\x7d,".toList))))))) := by
    simp [text]
  simp only [ofLine?, htext, behind?_append, readLiteral?_append,
    readWord_append hwrapper (hcomma _), readWord_append hflags hend,
    readWord_append (isIdent_decimal _) (hcomma _), readDecimal_decimal, String.ofList_toList,
    Option.bind_eq_bind, Option.bind_some, if_true]
  rfl

/-- The export table of a source, read row by row. -/
def exportTable (source : List String) : List ExportRow :=
  (named "bridge_funcs" source).flatMap fun d => d.body.filterMap ExportRow.ofLine?

theorem exportTable_eq {s : Surface} {source : List String}
    (h : named "bridge_funcs" source = [tableText s]) : exportTable source = exportRows s := by
  have hflags (kind : Option DirtyKind) : IsIdent (dirtyFlag kind) := by
    apply isIdent_of_all
    rcases kind with - | - | - <;> decide
  have hrows : ∀ r ∈ exportRows s, ExportRow.ofLine? ("  " ++ r.text) = some r := by
    intro r hr
    obtain ⟨f, -, rfl⟩ := List.mem_map.mp hr
    exact ExportRow.ofLine?_text (isIdent_symbol convention_plain f) (hflags _)
  have hread : (exportRows s).filterMap (fun r => ExportRow.ofLine? ("  " ++ r.text)) =
      exportRows s := by
    rw [List.filterMap_congr hrows, List.filterMap_some]
  have hlines : (tableText s).body =
      ((exportRows s).map ExportRow.text ++ ["\x7bNULL, 0, NULL, 0\x7d,"]).map ("  " ++ ·) := by
    have hnonempty : ∀ t ∈ (exportRows s).map ExportRow.text ++ ["\x7bNULL, 0, NULL, 0\x7d,"],
        t ≠ "" := by
      refine List.forall_mem_append.mpr ⟨List.forall_mem_map.mpr fun r _ => ?_, by decide⟩
      simp [ExportRow.text]
    have hall := linesAt_map_line hnonempty 1
    rw [List.map_append, List.map_map] at hall
    exact hall
  have hlast : ExportRow.ofLine? ("  " ++ "\x7bNULL, 0, NULL, 0\x7d,") = none := by decide
  rw [exportTable, h, List.flatMap_singleton, hlines, List.map_append, List.filterMap_append,
    List.map_map, List.filterMap_map]
  simp only [Function.comp_def, hread, List.map_cons, List.map_nil,
    List.filterMap_cons_none hlast, List.filterMap_nil, List.append_nil]

/-- The export table routes requests. -/
theorem exists_routes {name : String} {ds : List Declaration} {s : Surface}
    (h : Surface.build name ds = .ok s) (file : String) :
    ∃ source o, IsFile (frontNames file s) (backend.source file s) source ∧
      Agree convention s (headerLines flavor file s) source o ∧ exportTable source = exportRows s ∧
      ∀ request, Routes convention ExportRow.key ExportRow.wrapper ReadsArguments s
        (headerLines flavor file s) source (exportTable source) request := by
  have hs := addressed_of_build h
  obtain ⟨source, o, hfile, hagree, hlast, hplaces⟩ := exists_agree file s
  have hreads : List.Forall₂ (fun f d => ReadsArguments f d.body) s.functions o.wrappers :=
    ((List.forall₂_and_left _ _).mpr ⟨hs.arities, hplaces⟩).imp fun f d hd =>
      hd.2.readsArguments hd.1
  have hname : headName "static BridgeFunc bridge_funcs[] =" = "bridge_funcs" := by decide
  have htable : exportTable source = exportRows s := by
    refine exportTable_eq (named_of_last convention_plain hs hagree (by decide) (by decide)
      (by decide) ?_ hname)
    rw [hlast]
    exact List.mem_singleton_self _
  refine ⟨source, o, hfile, hagree, htable, fun request => ?_⟩
  rw [htable, exportRows]
  refine routes_of_functions convention_plain hs ?_ ?_ hagree ?_ request
  · exact fun f => rfl
  · exact fun f => rfl
  · exact hreads

end Nif

/-! ## The out-of-process backend -/

namespace CNode

theorem convention_plain : convention.Plain ["encode_", "decode_"] where
  returns := rfl
  stem := isIdent_of_all rfl
  helpers type htype := by
    have hencode : IsIdent ("encode_" ++ type) := IsIdent.append (isIdent_of_all rfl) htype
    have hdecode : IsIdent ("decode_" ++ type) := IsIdent.append (isIdent_of_all rfl) htype
    exact List.forall_mem_cons.mpr ⟨⟨"encode_", by decide, headName_headText rfl hencode⟩,
      List.forall_mem_singleton.mpr ⟨"decode_", by decide, headName_headText rfl hdecode⟩⟩
  apart := by decide
  last := by decide +kernel

/-- Read a branch: a comparison with a function and an arity, and the call of a wrapper under it. -/
def Branch.ofLines? (head call : String) : Option Branch := do
  let arity := readWord (← behind? "  if (arity == " head.toList)
  let name ← readLiteral? (← behind? " && strcmp(fun, " arity.2)
  let wrapper := readWord (← behind? "    return " call.toList)
  if name.2 = ") == 0) \x7b".toList ∧ wrapper.2 = "(env, buf, index);".toList then
    return ⟨String.ofList name.1, ← Text.readDecimal arity.1.toList, wrapper.1⟩
  else none

/-- The request that a branch answers. -/
def Branch.key (b : Branch) : String × Nat := (b.name, b.arity)

/-- The branches in lines, read one by one. -/
def branchesIn : List String → List Branch
  | head :: call :: lines => (Branch.ofLines? head call).toList ++ branchesIn (call :: lines)
  | _ => []

/-- A line that starts no branch. -/
theorem branchesIn_cons {line : String} (h : behind? "  if (arity == " line.toList = none)
    (lines : List String) : branchesIn (line :: lines) = branchesIn lines := by
  cases lines with
  | nil => rfl
  | cons call lines =>
    have hnone : Branch.ofLines? line call = none := by
      rw [Branch.ofLines?, h]
      rfl
    rw [branchesIn, hnone, Option.toList_none, List.nil_append]

theorem linesAt_branch (b : Branch) :
    linesAt 1 b.steps = ["  if (arity == " ++ Text.decimal b.arity ++ " && strcmp(fun, "
      ++ literal b.name ++ ") == 0) \x7b", "    return " ++ b.wrapper ++ "(env, buf, index);",
      "  \x7d"] := by
  have hmargins : margin 1 = "  " ∧ margin 2 = "    " := by decide
  have hhead (rest : String) : "  " ++ ("if (arity == " ++ rest) = "  if (arity == " ++ rest := by
    rw [← String.append_assoc]
    rfl
  have hcall (rest : String) : "    " ++ ("return " ++ rest) = "    return " ++ rest := by
    rw [← String.append_assoc]
    rfl
  simp [Branch.steps, block, blockWith, linesAt, Step.lineAt, Step.indentAfter, hmargins,
    String.append_assoc, hhead, hcall]

theorem branchesIn_steps {b : Branch} (hwrapper : IsIdent b.wrapper) (lines : List String) :
    branchesIn (linesAt 1 b.steps ++ lines) = b :: branchesIn lines := by
  have hhead : ("  if (arity == " ++ Text.decimal b.arity ++ " && strcmp(fun, " ++ literal b.name
      ++ ") == 0) \x7b").toList = "  if (arity == ".toList ++ ((Text.decimal b.arity).toList
      ++ (" && strcmp(fun, ".toList ++ ((literal b.name).toList ++ ") == 0) \x7b".toList))) := by
    simp only [String.toList_append, List.append_assoc]
  have hcall : ("    return " ++ b.wrapper ++ "(env, buf, index);").toList =
      "    return ".toList ++ (b.wrapper.toList ++ "(env, buf, index);".toList) := by
    simp only [String.toList_append, List.append_assoc]
  have hand (rest : List Char) :
      ∀ c ∈ (" && strcmp(fun, ".toList ++ rest).head?, ¬isIdentChar c := by
    intro c hc
    cases hc
    decide
  have hparen : ∀ c ∈ "(env, buf, index);".toList.head?, ¬isIdentChar c := by
    intro c hc
    cases hc
    decide
  have hread : Branch.ofLines? ("  if (arity == " ++ Text.decimal b.arity ++ " && strcmp(fun, "
      ++ literal b.name ++ ") == 0) \x7b") ("    return " ++ b.wrapper ++ "(env, buf, index);") =
      some b := by
    simp only [Branch.ofLines?, hhead, hcall, behind?_append, readLiteral?_append,
      readWord_append hwrapper hparen, readWord_append (isIdent_decimal _) (hand _),
      readDecimal_decimal, String.ofList_toList, Option.bind_eq_bind, Option.bind_some, and_self,
      if_true]
    rfl
  have hnone : behind? "  if (arity == " ("    return " ++ b.wrapper
      ++ "(env, buf, index);").toList = none := by
    rw [hcall]
    rfl
  rw [linesAt_branch, List.cons_append, List.cons_append, branchesIn, hread, branchesIn_cons hnone]
  exact congrArg (b :: ·) (branchesIn_cons rfl lines)

theorem branchesIn_flatMap {bs : List Branch} (h : ∀ b ∈ bs, IsIdent b.wrapper)
    (steps : List Step) :
    branchesIn (linesAt 1 (bs.flatMap Branch.steps ++ steps)) =
      bs ++ branchesIn (linesAt 1 steps) := by
  induction bs with
  | nil => rfl
  | cons b bs ih =>
    rw [List.forall_mem_cons] at h
    have hafter : indentAfter 1 b.steps = 1 := rfl
    rw [List.flatMap_cons, List.append_assoc, linesAt_append, branchesIn_steps h.1, hafter, ih h.2,
      List.cons_append]

/-- The branches of the dispatcher of a source. -/
def dispatchTable (source : List String) : List Branch :=
  (named "bridge_dispatch" source).flatMap fun d => branchesIn d.body

/-- The dispatcher in the text of a source. -/
def dispatchText (s : Surface) : Braced where
  head := dispatchSignature.text
  body := linesAt 1 ((if s.functions.isEmpty then unusedRequest else [])
    ++ (branches s).flatMap Branch.steps
    ++ [Step.line "return bridge_reply_undefined(env, fun, arity);"])

theorem dispatchTable_eq {s : Surface} {source : List String}
    (h : named "bridge_dispatch" source = [dispatchText s]) :
    dispatchTable source = branches s := by
  have hidents : ∀ b ∈ branches s, IsIdent b.wrapper := by
    intro b hb
    obtain ⟨f, -, rfl⟩ := List.mem_map.mp hb
    exact isIdent_symbol convention_plain f
  have hunused (steps : List Step) :
      branchesIn (linesAt 1 ((if s.functions.isEmpty then unusedRequest else []) ++ steps)) =
        branchesIn (linesAt 1 steps) := by
    split
    · exact (branchesIn_cons rfl _).trans (branchesIn_cons rfl _)
    · rfl
  rw [dispatchTable, h, List.flatMap_singleton, dispatchText, List.append_assoc, hunused,
    branchesIn_flatMap hidents]
  exact List.append_nil _

/-- The dispatcher routes requests. -/
theorem exists_routes {name : String} {ds : List Declaration} {s : Surface}
    (h : Surface.build name ds = .ok s) (file : String) :
    ∃ source o, IsFile (frontNames file s) (backend.source file s) source ∧
      Agree convention s (headerLines flavor file s) source o ∧ dispatchTable source = branches s ∧
      ∀ request, Routes convention Branch.key Branch.wrapper (fun _ _ => True) s
        (headerLines flavor file s) source (dispatchTable source) request := by
  have hs := addressed_of_build h
  obtain ⟨source, o, hfile, hagree, hlast, hwrappers⟩ := exists_agree file s
  have hname : headName dispatchSignature.text = "bridge_dispatch" := by decide +kernel
  have htable : dispatchTable source = branches s := by
    refine dispatchTable_eq (named_of_last convention_plain hs hagree (by decide) (by decide)
      (by decide +kernel) ?_ hname)
    rw [hlast]
    exact List.mem_cons_self
  refine ⟨source, o, hfile, hagree, htable, fun request => ?_⟩
  rw [htable, branches]
  refine routes_of_functions convention_plain hs ?_ ?_ hagree ?_ request
  · exact fun f => rfl
  · exact fun f => rfl
  · exact hwrappers.imp fun f d _ => trivial

end CNode

/-! ## Both backends -/

namespace C

/-- **Both backends route requests alike.** For a surface that is built and a request, the export
table and the dispatcher have an entry exactly if the surface has the function, no more than one,
and the entry refers to the wrapper of the function. The flag in the table is that of the last mark
for the function in the file. -/
theorem routes_of_build {name : String} {ds : List Declaration} {s : Surface}
    (h : Surface.build name ds = .ok s) (file : String) (request : String × Nat) :
    (∃ header source, IsFile (frontNames file s) (Nif.backend.header file s) header ∧
      IsFile (frontNames file s) (Nif.backend.source file s) source ∧
      Routes Nif.convention Nif.ExportRow.key Nif.ExportRow.wrapper ReadsArguments s header source
        (Nif.exportTable source) request ∧
      ∃ rs, ds.mapM Record.ofDeclaration = .ok rs ∧
        ∀ row, (Nif.exportTable source).find? (Nif.ExportRow.key · = request) = some row →
          (((rs.flatMap Record.dirtyMarks).filter (·.key = request)).getLast?.map (·.kind),
            row.flags) ∈
          [(none, "0"), (some .cpu, "BRIDGE_DIRTY_CPU"), (some .io, "BRIDGE_DIRTY_IO")]) ∧
    ∃ header source, IsFile (frontNames file s) (CNode.backend.header file s) header ∧
      IsFile (frontNames file s) (CNode.backend.source file s) source ∧
      Routes CNode.convention CNode.Branch.key CNode.Branch.wrapper (fun _ _ => True) s header
        source (CNode.dispatchTable source) request := by
  have hflag (kind : Option DirtyKind) : (kind, Nif.dirtyFlag kind) ∈
      [(none, "0"), (some .cpu, "BRIDGE_DIRTY_CPU"), (some .io, "BRIDGE_DIRTY_IO")] := by
    rcases kind with - | - | - <;> decide
  constructor
  · obtain ⟨source, o, hfile, -, htable, hroutes⟩ := Nif.exists_routes h file
    obtain ⟨b, hb, h⟩ := Outcome.bind_eq_ok.mp h
    obtain ⟨rs, hrs, rfl, -⟩ := Builder.exists_records hb
    have hs : s = .ofRecords name rs := by rw [← Surface.finish_foldl_put, Except.ok.inj h]
    refine ⟨_, source, (isFile_header Nif.flavor_lines file s).1, hfile, hroutes request, rs, hrs,
      fun row hrow => ?_⟩
    have hkey := List.find?_some hrow
    rw [decide_eq_true_eq] at hkey
    rw [htable] at hrow
    obtain ⟨f, -, rfl⟩ := List.mem_map.mp (List.mem_of_find?_eq_some hrow)
    have hmarks : (Surface.ofRecords name rs).dirtyKind? f.name f.arity = _ :=
      Surface.dirtyKind?_ofRecords f.name f.arity
    rw [← hs] at hmarks
    rw [← hkey]
    change (Option.map _ (List.getLast? _), Nif.dirtyFlag (s.dirtyKind? f.name f.arity)) ∈ _
    rw [hmarks]
    exact hflag _
  · obtain ⟨source, o, hfile, -, -, hroutes⟩ := CNode.exists_routes h file
    exact ⟨_, source, (isFile_header CNode.flavor_lines file s).1, hfile, hroutes request⟩

/-- A function with two arities, one of which takes a list and is marked twice. -/
def overloaded : List Declaration :=
  let word (name : String) : Expr := .ident name {}
  let symbol (name : String) : Expr := .atom name {}
  let typed (name : String) (type : Expr) : Expr := .typed (word name) type {}
  let line (kind : String) (payload : List Expr) : Declaration := ⟨⟨kind, {}⟩, payload, {}⟩
  let function (name : String) (params : List Expr) : Declaration :=
    line "spec" [.typed (.call ⟨name, {}⟩ params {}) (symbol "ok") {}]
  let mark (kind name : String) (arity : Nat) : Declaration :=
    line "dirty" [symbol kind, .keyword [(⟨name, {}⟩, .int arity {})] {}]
  [function "f" [typed "xs" (.list [word "int"] {})], mark "io" "f" 1,
    function "f" [typed "a" (word "int"), typed "b" (word "int")], mark "cpu" "f" 1]

theorem routes_of_build_overloaded :
    ∃ s source source' row d, Surface.build "m" overloaded = .ok s ∧
      IsFile (frontNames "m" s) (Nif.backend.source "m" s) source ∧
      IsFile (frontNames "m" s) (CNode.backend.source "m" s) source' ∧
      (Nif.exportTable source).find? (Nif.ExportRow.key · = ("f", 1)) = some row ∧
      row.flags = "BRIDGE_DIRTY_CPU" ∧ named row.wrapper source = [d] ∧
      ("argv", "0") ∈ d.body.flatMap subscriptsIn ∧
      (∀ place, ("argv", place) ∈ d.body.flatMap subscriptsIn →
        ∃ i < 1, place = Text.decimal i) ∧
      (CNode.dispatchTable source').find? (CNode.Branch.key · = ("f", 3)) = none := by
  have h : Surface.build "m" overloaded = .ok _ := rfl
  obtain ⟨⟨header, source, -, hfile, ⟨hfound, -, hwrapper⟩, rs, hrs, hflags⟩, -⟩ :=
    routes_of_build h "m" ("f", 1)
  obtain ⟨-, header', source', -, hfile', hother, -, -⟩ := routes_of_build h "m" ("f", 3)
  obtain ⟨row, hrow⟩ := Option.isSome_iff_exists.mp (hfound.mpr rfl)
  obtain ⟨d, -, -, hreads, halone⟩ := hwrapper row _ hrow rfl
  obtain rfl := Except.ok.inj hrs
  have hflag : (some DirtyKind.cpu, row.flags) ∈ [(none, "0"), (some .cpu, "BRIDGE_DIRTY_CPU"),
      (some .io, "BRIDGE_DIRTY_IO")] := hflags row hrow
  refine ⟨_, source, source', row, d, h, hfile, hfile', hrow, by simpa using hflag,
    halone.mpr ⟨by decide +kernel, by decide +kernel⟩, hreads.all 0 (by decide),
    hreads.bounded.mpr (by decide +kernel), ?_⟩
  rw [← Option.not_isSome_iff_eq_none, hother]
  exact Bool.false_ne_true

/-- Names that differ in characters which C does not have: both entries refer to one symbol, which
the source defines twice. A list that is called like the request: the wrapper subscripts the request
by a loop variable. -/
theorem routes_collide :
    (∃ s source source', (SourceFile.mk "a.bspec"
        "interface NIF\nspec f?(a :: int) :: :ok\nspec f!(b :: atom) :: :no").compile = .ok s ∧
      IsFile (frontNames "a" s) (Nif.backend.source "a" s) source ∧
      IsFile (frontNames "a" s) (CNode.backend.source "a" s) source' ∧
      (Nif.exportTable source).map (fun row => (row.key, row.wrapper)) =
        [(("f?", 1), "export_f__1"), (("f!", 1), "export_f__1")] ∧
      (named "export_f__1" source).length = 2 ∧
      (CNode.dispatchTable source').map (fun branch => (branch.key, branch.wrapper)) =
        [(("f?", 1), "dispatch_f__1"), (("f!", 1), "dispatch_f__1")] ∧
      (named "dispatch_f__1" source').length = 2) ∧
    ∃ s source d, (SourceFile.mk "a.bspec"
        "interface NIF\nspec f(argv :: [int]) :: :ok").compile = .ok s ∧
      IsFile (frontNames "a" s) (Nif.backend.source "a" s) source ∧
      named "export_f_1" source = [d] ∧
      ¬∀ place, ("argv", place) ∈ d.body.flatMap subscriptsIn →
        ∃ i < 1, place = Text.decimal i := by
  constructor
  · let s : Surface :=
      { moduleName := "a", interface := some (.single "NIF"),
        functions := [⟨"f?", 1, [⟨"a", .named "int"⟩], [⟨[.ofLabel "ok"], "f?_result_ok"⟩]⟩,
          ⟨"f!", 1, [⟨"b", .named "atom"⟩], [⟨[.ofLabel "no"], "f!_result_no"⟩]⟩] }
    have hcompile : (SourceFile.mk "a.bspec"
        "interface NIF\nspec f?(a :: int) :: :ok\nspec f!(b :: atom) :: :no").compile = .ok s := by
      decide +kernel
    obtain ⟨-, hbuild⟩ := SourceFile.build_of_compile hcompile
    obtain ⟨source, o, hfile, hagree, htable, -⟩ := Nif.exists_routes hbuild "a"
    obtain ⟨source', o', hfile', hagree', htable', -⟩ := CNode.exists_routes hbuild "a"
    refine ⟨s, source, source', hcompile, hfile, hfile', ?_, ?_, ?_, ?_⟩
    · rw [htable]
      decide +kernel
    · rw [length_named hagree Nif.convention_plain]
      decide +kernel
    · rw [htable']
      decide +kernel
    · rw [length_named hagree' CNode.convention_plain]
      decide +kernel
  · let f : NativeFunction :=
      ⟨"f", 1, [⟨"argv", .list (.named "int")⟩], [⟨[.ofLabel "ok"], "f_result_ok"⟩]⟩
    let s : Surface := { moduleName := "a", interface := some (.single "NIF"), functions := [f] }
    have hcompile : (SourceFile.mk "a.bspec"
        "interface NIF\nspec f(argv :: [int]) :: :ok").compile = .ok s := by
      decide +kernel
    obtain ⟨-, hbuild⟩ := SourceFile.build_of_compile hcompile
    obtain ⟨source, o, hfile, -, htable, hroutes⟩ := Nif.exists_routes hbuild "a"
    obtain ⟨d, -, -, hreads, halone⟩ := (hroutes ("f", 1)).wrapper ⟨"f", 1, "export_f_1", "0"⟩ f
      (by rw [htable]; decide +kernel) (by decide +kernel)
    refine ⟨s, source, d, hcompile, hfile, halone.mpr ⟨by decide +kernel, by decide +kernel⟩,
      fun hbounded => ?_⟩
    exact hreads.bounded.mp hbounded _ List.mem_cons_self rfl (by decide +kernel)

end C

end NativeInterface
