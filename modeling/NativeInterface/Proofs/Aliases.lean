import NativeInterface.Proofs.AppendedLine
import NativeInterface.Proofs.Meaning

/-!
# Declared types in use

The alias of a type finds the type itself, and a line behind the file may use it: such a line
compiles and its argument has the declared type. Two names are left open by the checks of a
declaration. A type may be declared by the name of a primitive, and values of that name are then
still values of the primitive; and a type may be declared as `label`, which no value can have.
-/

namespace NativeInterface
open Token (Kind)

/-! ## Aliases and their definitions -/

theorem find?_of_nodup {α : Type} {key : α → String} {xs : List α} (h : (xs.map key).Nodup) {x : α}
    (hx : x ∈ xs) : xs.find? (key · == key x) = some x := by
  cases hfound : xs.find? (key · == key x) with
  | none => exact absurd (beq_self_eq_true (key x)) (List.find?_eq_none.mp hfound x hx)
  | some y =>
    have hkey := List.find?_some hfound
    rw [beq_iff_eq] at hkey
    exact congrArg some (List.inj_on_of_nodup_map h (List.mem_of_find?_eq_some hfound) hx hkey)

namespace Surface
variable {name : String} {s : Surface} {ds : List Declaration}

/-- The names of the structs, then those of the enums. -/
def aliases (s : Surface) : List String := s.structs.map (·.name) ++ s.enums.map (·.name)

theorem nodup_aliases (h : build name ds = .ok s) : s.aliases.Nodup := by
  obtain ⟨b, rfl, hkeys, -⟩ := exists_builder h
  exact hkeys.aliases

theorem struct?_of_mem (h : build name ds = .ok s) {d : Struct} (hd : d ∈ s.structs) :
    s.struct? d.name = some d :=
  find?_of_nodup (List.nodup_append.mp (nodup_aliases h)).1 hd

theorem enum?_of_mem (h : build name ds = .ok s) {e : Enum} (he : e ∈ s.enums) :
    s.enum? e.name = some e :=
  find?_of_nodup (List.nodup_append.mp (nodup_aliases h)).2.1 he

theorem struct?_of_enum (h : build name ds = .ok s) {e : Enum} (he : e ∈ s.enums) :
    s.struct? e.name = none := by
  rw [struct?, List.find?_eq_none]
  intro d hd hname
  exact (List.nodup_append.mp (nodup_aliases h)).2.2 _ (List.mem_map_of_mem hd) _
    (List.mem_map_of_mem he) (eq_of_beq hname)

/-- Only a primitive of that name keeps a lookup from the declared types. -/
theorem classify_eq_iff {leaf : String} {found : C.Leaf} (hfound : ∀ p, found ≠ .primitive p)
    (hlookup : C.Primitive.ofName? leaf = none → C.classify s leaf = found) :
    C.classify s leaf = found ↔ isPrimitiveType leaf = false := by
  rw [isPrimitiveType_eq, Option.isSome_eq_false_iff, Option.isNone_iff_eq_none]
  refine ⟨fun hclass => ?_, hlookup⟩
  cases hprimitive : C.Primitive.ofName? leaf with
  | none => rfl
  | some p =>
    rw [C.classify, hprimitive] at hclass
    exact absurd hclass.symm (hfound p)

theorem classify_struct_iff (h : build name ds = .ok s) {d : Struct} (hd : d ∈ s.structs) :
    C.classify s d.name = .struct d.name ↔ isPrimitiveType d.name = false := by
  refine classify_eq_iff (fun p hp => by cases hp) fun hnone => ?_
  rw [C.classify, hnone, struct?_of_mem h hd]
  rfl

theorem classify_enum_iff (h : build name ds = .ok s) {e : Enum} (he : e ∈ s.enums) :
    C.classify s e.name = .enum e.name ↔ isPrimitiveType e.name = false := by
  refine classify_eq_iff (fun p hp => by cases hp) fun hnone => ?_
  rw [C.classify, hnone, struct?_of_enum h he, enum?_of_mem h he]
  rfl

end Surface

/-! ## Where aliases come from -/

namespace Record

/-- The alias that a record declares. -/
def alias? : Record → Option String
  | .struct s => some s.name
  | .enum e => some e.name
  | _ => none

/-- An alias stands on the left side of its declaration. -/
theorem payload_of_alias {d : Declaration} {r : Record} (h : ofDeclaration d = .ok r)
    {name : String} (hname : r.alias? = some name) :
    ∃ place body span, d.payload = [.typed (.ident name place) body span] := by
  cases Read.of_ofDeclaration h with
  | struct _ hpayload _ | enum _ hpayload _ =>
    cases hname
    exact ⟨_, _, _, hpayload⟩
  | _ => cases hname

end Record

theorem Surface.exists_alias {name : String} {ds : List Declaration} {s : Surface}
    (h : build name ds = .ok s) {leaf : String} (hleaf : leaf ∈ s.aliases) :
    ∃ d ∈ ds, ∃ place body span, d.payload = [.typed (.ident leaf place) body span] := by
  obtain ⟨b, hb, h⟩ := Outcome.bind_eq_ok.mp h
  obtain ⟨rs, hrs, rfl, -⟩ := Builder.exists_records hb
  have hs : s = .ofRecords name rs := by rw [← finish_foldl_put, Except.ok.inj h]
  obtain ⟨r, hr, hname⟩ : ∃ r ∈ rs, r.alias? = some leaf := by
    rw [hs] at hleaf
    rcases List.mem_append.mp hleaf with hmem | hmem
    · obtain ⟨t, ht, rfl⟩ := List.mem_map.mp hmem
      obtain ⟨r, hr, hstruct⟩ := List.mem_filterMap.mp ht
      cases r <;> cases hstruct
      exact ⟨_, hr, rfl⟩
    · obtain ⟨e, he, rfl⟩ := List.mem_map.mp hmem
      obtain ⟨r, hr, henum⟩ := List.mem_filterMap.mp he
      cases r <;> cases henum
      exact ⟨_, hr, rfl⟩
  obtain ⟨d, hd, hread⟩ := Outcome.exists_of_mem_mapM hrs hr
  exact ⟨d, hd, Record.payload_of_alias hread hname⟩

/-- An alias is a name that the lexer reads. -/
theorem SourceFile.spelled_of_mem_aliases {f : SourceFile} {s : Surface} (h : f.compile = .ok s)
    {leaf : String} (hleaf : leaf ∈ s.aliases) : (Kind.identifier leaf).Spelled := by
  obtain ⟨herrors, hbuild⟩ := build_of_compile h
  obtain ⟨d, hd, place, body, span, hpayload⟩ := Surface.exists_alias hbuild hleaf
  have hk : .identifier leaf ∈ d.kinds := by
    rw [Declaration.kinds, hpayload]
    exact List.mem_cons_of_mem _ (List.mem_cons_self ..)
  obtain ⟨_, -, -, hspelled⟩ := spelled_of_mem_kinds herrors hd hk
  exact hspelled rfl

/-! ## A line that uses a type -/

theorem spelled_identifier {name : List Char} {c : Char} (hc : Lexeme.startsIdentifier c)
    (hname : ∀ d ∈ name, Lexeme.isWord d) :
    (Kind.identifier (String.ofList (c :: name))).Spelled :=
  ⟨c, name, hc, ⟨name, [], hname, .inl rfl, (List.append_nil name).symm⟩, rfl⟩

/-- A function that takes a value of a type and returns nothing. -/
def RawFunction.taking (function type : String) : RawFunction :=
  ⟨function, [⟨"x", .named type⟩], [⟨[.ofLabel "ok"], {}⟩], {}⟩

theorem RawFunction.indexed_taking (function type : String) : (taking function type).indexed =
    ⟨function, 1, [⟨"x", .named type⟩], [⟨[.ofLabel "ok"], function ++ "_result_ok"⟩]⟩ := by
  have haccessor : function ++ "_result_ok" = function ++ "_result_" ++ "ok" := by
    rw [String.append_assoc]
    rfl
  rw [haccessor]
  rfl

namespace Declaration

/-- The declaration `spec function(x :: type) :: :ok`. -/
def use (function type : String) : Declaration :=
  ⟨⟨"spec", {}⟩, [.typed (.call ⟨function, {}⟩ [.typed (.ident "x" {}) (.ident type {}) {}] {})
    (.atom "ok" {}) {}], {}⟩

variable {function type : String}

theorem line_use : (use function type).line =
    "spec " ++ function ++ "(x :: " ++ type ++ ") :: :ok" := by
  have hopen : "(x :: " = "(" ++ "x :: " := rfl
  simp only [line, use, Expr.texts, Expr.text, Text.join, hopen, String.append_assoc]
  rfl

theorem kinds_use : (use function type).kinds =
    [.identifier "spec", .identifier function, .lparen, .identifier "x", .colonColon,
      .identifier type, .rparen, .colonColon, .atom "ok"] :=
  rfl

theorem spelled_use (hfunction : (Kind.identifier function).Spelled)
    (htype : (Kind.identifier type).Spelled) : ∀ k ∈ (use function type).kinds, k.Spelled := by
  have hspec : (Kind.identifier "spec").Spelled :=
    spelled_identifier (c := 's') rfl
      (List.all_eq_true.mp (by decide : ['p', 'e', 'c'].all Lexeme.isWord = true))
  have hx : (Kind.identifier "x").Spelled :=
    spelled_identifier (c := 'x') rfl (List.forall_mem_nil _)
  have hok : (Kind.atom "ok").Spelled :=
    ⟨'o', ['k'], rfl, ⟨['k'], [],
      List.all_eq_true.mp (by decide : ['k'].all Lexeme.isWord = true), .inl rfl, rfl⟩, rfl⟩
  simp only [kinds_use, List.forall_mem_cons]
  exact ⟨hspec, hfunction, trivial, hx, trivial, htype, trivial, trivial, hok, by simp⟩

theorem writable_use (hfunction : (Kind.identifier function).Spelled)
    (htype : (Kind.identifier type).Spelled) : (use function type).Writable where
  derives := .payload (.exprs (.one (.typed (.plain (.call (.some (.exprs (.one
    (.typed (.plain .ident) (.plain (.plain .ident)))))))) (.plain (.plain .atom)))))
  levels_le := Nat.le_of_ble_eq_true rfl
  spelled := spelled_use hfunction htype

/-- Labels are no values, so no argument has their type. -/
theorem ofDeclaration_use_label (r : Record) :
    Record.ofDeclaration (use function Record.labelType) ≠ .ok r := by
  intro h
  cases h

theorem ofDeclaration_use (h : type ≠ Record.labelType) :
    Record.ofDeclaration (use function type) = .ok (.function (.taking function type)) := by
  have hparam : Record.param "spec" (.typed (.ident "x" {}) (.ident type {}) {}) =
      .ok ⟨"x", .named type⟩ := by
    rw [Record.param, Record.ty, Record.valueType, if_neg h]
    rfl
  have hparams : [Expr.typed (.ident "x" {}) (.ident type {}) {}].mapM (Record.param "spec") =
      .ok [⟨"x", .named type⟩] :=
    Outcome.mapM_eq_ok.mpr (.cons hparam .nil)
  refine Outcome.bind_eq_ok.mpr ⟨_, rfl, Outcome.bind_eq_ok.mpr ⟨_, rfl, ?_⟩⟩
  exact Outcome.bind_eq_ok.mpr ⟨_, hparams, Outcome.bind_eq_ok.mpr ⟨_, rfl, rfl⟩⟩

end Declaration

namespace Builder
variable {b b' : Builder} {function leaf : String}

theorem admits_taking (hleaf : leaf ∈ b.scope.declared)
    (hfunction : b.hasFunction function 1 = false) (span : Span) :
    b.Admits span (.function (.taking function leaf)) := by
  refine ⟨hfunction, ?_, rfl⟩
  refine Outcome.forM_eq_ok.mpr (List.forall_mem_singleton.mpr ?_)
  have hknown : b.scope.knows leaf := by
    rw [Scope.knows, Scope.isDeclared_iff.mpr hleaf, Bool.or_true]
  exact if_pos hknown

/-- A declared type can be used by any function that is not declared yet. -/
theorem add_use (hleaf : leaf ∈ b.scope.declared) (hfunction : b.hasFunction function 1 = false) :
    b.add (.use function leaf) = .ok b' ↔
      leaf ≠ Record.labelType ∧ b.put (.function (.taking function leaf)) = b' := by
  rw [add_eq_ok_iff]
  constructor
  · rintro ⟨r, hr, -, hput⟩
    have hlabel : leaf ≠ Record.labelType := by
      rintro rfl
      exact Declaration.ofDeclaration_use_label r hr
    rw [Declaration.ofDeclaration_use hlabel] at hr
    cases hr
    exact ⟨hlabel, hput⟩
  · rintro ⟨hlabel, hput⟩
    exact ⟨_, Declaration.ofDeclaration_use hlabel, admits_taking hleaf hfunction _, hput⟩

end Builder

namespace Surface
variable {name function leaf : String} {s s' : Surface} {ds : List Declaration}

theorem build_concat {d : Declaration} : build name (ds ++ [d]) = .ok s' ↔
    ∃ b b', ds.foldlM Builder.add (Builder.ofName name) = .ok b ∧ b.add d = .ok b' ∧
      b'.finish = s' := by
  rw [build, List.foldlM_append, Outcome.bind_eq_ok]
  constructor
  · rintro ⟨b', hb', hs'⟩
    obtain ⟨b, hb, hd⟩ := Outcome.bind_eq_ok.mp hb'
    rw [List.foldlM_cons] at hd
    obtain ⟨c, hc, hnil⟩ := Outcome.bind_eq_ok.mp hd
    cases hnil
    exact ⟨b, b', hb, hc, Except.ok.inj hs'⟩
  · rintro ⟨b, b', hb, hd, rfl⟩
    refine ⟨b', Outcome.bind_eq_ok.mpr ⟨b, hb, ?_⟩, rfl⟩
    rw [List.foldlM_cons]
    exact Outcome.bind_eq_ok.mpr ⟨b', hd, rfl⟩

theorem build_use (h : build name ds = .ok s) (hleaf : leaf ∈ s.aliases)
    (hfunction : s.function? function 1 = none) :
    build name (ds ++ [Declaration.use function leaf]) = .ok s' ↔ leaf ≠ Record.labelType ∧
      { s with functions := s.functions ++ [(RawFunction.taking function leaf).indexed] } = s' := by
  obtain ⟨b, hb, h⟩ := Outcome.bind_eq_ok.mp h
  obtain rfl := Except.ok.inj h
  obtain ⟨hkeys, -⟩ := Builder.wellKeyed_of_foldlM hb
  have hnew : b.hasFunction function 1 = false := by
    rw [Builder.hasFunction, List.any_eq_false]
    exact List.find?_eq_none.mp hfunction
  have hadd {b' : Builder} : b.add (.use function leaf) = .ok b' ↔ _ :=
    Builder.add_use ((hkeys.declared leaf).mpr hleaf) hnew
  rw [build_concat]
  constructor
  · rintro ⟨c, b', hc, hd, rfl⟩
    obtain rfl := Except.ok.inj (hb.symm.trans hc)
    obtain ⟨hlabel, rfl⟩ := hadd.mp hd
    exact ⟨hlabel, rfl⟩
  · rintro ⟨hlabel, rfl⟩
    exact ⟨b, _, hb, hadd.mpr ⟨hlabel, rfl⟩, rfl⟩

end Surface

/-! ## Files -/

namespace SourceFile

/-- **Declared types are found and can be used.** In a file that compiles, every alias finds its own
definition, and code is generated for that definition unless a primitive has the same name. One more
line that takes a value of the type compiles, to the same surface with one more function, unless
the type is called `label` or the last line of the file goes on. -/
theorem aliases_of_compile {f : SourceFile} {s : Surface} (h : f.compile = .ok s) :
    (∀ d ∈ s.structs, s.struct? d.name = some d ∧
      (C.classify s d.name = .struct d.name ↔ isPrimitiveType d.name = false)) ∧
    (∀ e ∈ s.enums, s.enum? e.name = some e ∧
      (C.classify s e.name = .enum e.name ↔ isPrimitiveType e.name = false)) ∧
    ∀ leaf ∈ s.aliases, ∀ g, Lexeme.IsNameFrom Lexeme.startsIdentifier g →
      s.function? g 1 = none →
      (f.appended ("spec " ++ g ++ "(x :: " ++ leaf ++ ") :: :ok")).compile.toOption =
        if leaf = "label" ∨ f.isOpen then none
        else some { s with functions := s.functions ++
          [⟨g, 1, [⟨"x", .named leaf⟩], [⟨[.ofLabel "ok"], g ++ "_result_ok"⟩]⟩] } := by
  obtain ⟨-, hbuild⟩ := build_of_compile h
  refine ⟨fun d hd => ?_, fun e he => ?_, fun leaf hleaf g hg hfunction => ?_⟩
  · exact ⟨Surface.struct?_of_mem hbuild hd, Surface.classify_struct_iff hbuild hd⟩
  · exact ⟨Surface.enum?_of_mem hbuild he, Surface.classify_enum_iff hbuild he⟩
  · have hspelled := spelled_of_mem_aliases h hleaf
    have hd := Declaration.writable_use hg hspelled
    have hcompile {s' : Surface} (hopen : f.isOpen = false) :
        (f.appended (Declaration.use g leaf).line).compile = .ok s' ↔ _ :=
      (compile_appended h hopen hd).trans (Surface.build_use hbuild hleaf hfunction)
    rw [← Declaration.line_use, ← RawFunction.indexed_taking]
    split
    · rename_i hbad
      cases hread : (f.appended (Declaration.use g leaf).line).compile with
      | error ds => rfl
      | ok s' =>
        cases hopen : f.isOpen with
        | true =>
          exact absurd hread
            (compile_appended_of_isOpen h hopen hd.spelled Declaration.kinds_use)
        | false =>
          rw [hopen] at hbad
          exact absurd (hbad.resolve_right Bool.false_ne_true) ((hcompile hopen).mp hread).1
    · rename_i hgood
      obtain ⟨hlabel, hopen⟩ := not_or.mp hgood
      rw [(hcompile (Bool.eq_false_iff.mpr hopen)).mpr ⟨hlabel, rfl⟩]
      rfl

/-- A struct that holds an enum, and a line that takes it. -/
theorem aliases_of_compile_point :
    let f : SourceFile :=
      ⟨"a.bspec", "type color :: :red | :green\n\ntype point :: %P\x7bc: color\x7d"⟩
    let s : Surface :=
      { moduleName := "a", structs := [⟨"point", "P", [⟨"c", .named "color"⟩]⟩],
        enums := [⟨"color", ["red", "green"]⟩] }
    f.compile = .ok s ∧ C.classify s "point" = .struct "point" ∧
      C.classify s "color" = .enum "color" ∧
      (f.appended "spec g(x :: point) :: :ok").compile.toOption = some { s with
        functions := [⟨"g", 1, [⟨"x", .named "point"⟩], [⟨[.ofLabel "ok"], "g_result_ok"⟩]⟩] } := by
  intro f s
  have h : f.compile = .ok s := by decide +kernel
  obtain ⟨hstructs, henums, huse⟩ := aliases_of_compile h
  have hg : Lexeme.IsNameFrom Lexeme.startsIdentifier "g" :=
    spelled_identifier (c := 'g') rfl (List.forall_mem_nil _)
  have hline := huse "point" List.mem_cons_self "g" hg rfl
  have hclosed : f.isOpen = false := by decide +kernel
  rw [hclosed] at hline
  exact ⟨h, (hstructs _ List.mem_cons_self).2.mpr rfl, (henums _ List.mem_cons_self).2.mpr rfl,
    hline⟩

/-- An enum called `int` and one called `label` are accepted. Values of the first are classified as
the primitive, and no line can take values of the second. -/
theorem aliases_of_primitive_and_label :
    ((SourceFile.mk "a.bspec" "type int :: :a").compile.toOption.map fun s =>
      (s.enums, C.classify s "int")) = some ([⟨"int", ["a"]⟩], .primitive .int) ∧
    ((SourceFile.mk "a.bspec" "type label :: :a").compile.toOption.map (·.enums)) =
      some [⟨"label", ["a"]⟩] ∧
    (SourceFile.mk "a.bspec" "type label :: :a\nspec g(x :: label) :: :ok").compile.toOption =
      none := by
  decide +kernel

end SourceFile

end NativeInterface
