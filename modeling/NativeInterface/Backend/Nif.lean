import NativeInterface.Backend.Basic
import NativeInterface.C.Header

/-!
# The in-process backend

A native library that is loaded into the managed runtime. `bridge_make_*` builds a term,
`bridge_get_*` takes one apart and says whether it fits, and memory from `bridge_alloc` lives as
long as the call.
-/

namespace NativeInterface.Nif

open C

def flavor : Flavor where
  backend := "nif"
  runtimeHeader := "bridgespec/nif.h"
  returns := "BridgeTerm"
  entryPoints := []

/-! ### Conversions -/

/-- Put the term of `src` into `dst`; a list is made element by element. -/
def encode (s : Surface) (type : Ty) (src dst : String) : Numbered (List Step) :=
  match type with
  | .list element => do
    let n := Text.decimal (← fresh)
    let length := lengthName src
    pure (block ""
      (.line ("BridgeTerm *items_" ++ n ++ " = bridge_alloc(sizeof(BridgeTerm) * " ++ length
          ++ ");")
        :: loop n length
          [.line ("items_" ++ n ++ "[i_" ++ n ++ "] = " ++ helper s "make" element ++ "(env, "
            ++ src ++ "[i_" ++ n ++ "]);")]
        ++ [.line (dst ++ " = bridge_make_list(env, items_" ++ n ++ ", " ++ length ++ ");")]))
  | type => pure [.line (dst ++ " = " ++ helper s "make" type ++ "(env, " ++ src ++ ");")]

/-- Take `term` apart into `target`, and do `onFail` when it does not fit. -/
def decode (s : Surface) (type : Ty) (term target onFail : String) : Numbered (List Step) :=
  match type with
  | .list element => do
    let n := Text.decimal (← fresh)
    let length := lengthName target
    pure (block ""
      (.line ("BridgeTerm cell_" ++ n ++ " = " ++ term ++ ";")
        :: .line ("BridgeTerm head_" ++ n ++ ";")
        :: block ("if (!bridge_get_list_length(env, " ++ term ++ ", &" ++ length ++ "))")
          [.line onFail]
        ++ .line (target ++ " = bridge_alloc(sizeof(*" ++ target ++ ") * " ++ length ++ ");")
        :: loop n length
          (block ("if (!bridge_get_list_cell(env, cell_" ++ n ++ ", &head_" ++ n ++ ", &cell_" ++ n
              ++ ") || !" ++ helper s "get" element ++ "(env, head_" ++ n ++ ", &" ++ target
              ++ "[i_" ++ n ++ "]))")
            [.line onFail])))
  | type =>
    pure (block ("if (!" ++ helper s "get" type ++ "(env, " ++ term ++ ", &" ++ target ++ "))")
      [.line onFail])

/-- Build one item of a clause into its place. -/
def encodeItem (s : Surface) (item : ResultItem) (i : Nat) : Numbered (List Step) :=
  let place := "items[" ++ Text.decimal i ++ "]"
  match item.label with
  | some label => pure [.line (place ++ " = bridge_make_atom(env, " ++ literal label ++ ");")]
  | none => encode s item.type (ident item.name) place

/-- Build the term of a clause into `dst`: a bare item, or a tuple. -/
def encodeClause (s : Surface) (c : Clause) (dst : String) : Numbered (List Step) := do
  let count := Text.decimal c.items.length
  let parts ← collect (fun (item, i) => encodeItem s item i) c.items.zipIdx
  let last :=
    if c.items.length = 1 then dst ++ " = items[0];"
    else dst ++ " = bridge_make_tuple(env, items, " ++ count ++ ");"
  pure (.line ("BridgeTerm items[" ++ count ++ "];") :: parts ++ [.line last])

/-! ### Declared types -/

def makeSignature (name : String) : Signature where
  isStatic := true
  returns := "BridgeTerm"
  name := "make_" ++ ident name
  params := ["BridgeEnv *env", ident name ++ " value"]

def getSignature (name : String) : Signature where
  isStatic := true
  returns := "int"
  name := "get_" ++ ident name
  params := ["BridgeEnv *env", "BridgeTerm term", ident name ++ " *out"]

def enumItems (e : Enum) : List Item :=
  [.definition (.conversion e.name) (makeSignature e.name)
      ((e.variants.flatMap fun v =>
          block ("if (value == " ++ enumConstant e.name v ++ ")")
            [.line ("return bridge_make_atom(env, " ++ literal v ++ ");")])
        ++ [.line "return bridge_make_atom(env, \"undefined\");"]),
    .blank,
    .definition (.conversion e.name) (getSignature e.name)
      ((e.variants.flatMap fun v =>
          block ("if (bridge_is_atom(env, term, " ++ literal v ++ "))")
            [.line ("*out = " ++ enumConstant e.name v ++ ";"), .line "return 1;"])
        ++ [.line "return 0;"]),
    .blank]

/-- Put the key and the value of one field into its slot. -/
def encodeMember (s : Surface) (m : Member) (slot : Nat) : Numbered (List Step) := do
  let i := Text.decimal slot
  let value ← encode s m.type ("value." ++ ident m.name) ("values[" ++ i ++ "]")
  pure (.line ("keys[" ++ i ++ "] = bridge_make_atom(env, " ++ literal m.name ++ ");") :: value)

/-- Take the value of one field out of a map. -/
def decodeMember (s : Surface) (m : Member) : Numbered (List Step) := do
  let value ← decode s m.type "field" ("out->" ++ ident m.name) "return 0;"
  pure (block ("if (!bridge_get_map_value(env, term, " ++ literal m.name ++ ", &field))")
      [.line "return 0;"]
    ++ value)

def structItems (s : Surface) (d : Struct) : Numbered (List Item) := do
  let count := Text.decimal (d.members.length + 1)
  let encoded ← collect (fun (m, i) => encodeMember s m (i + 1)) d.members.zipIdx
  let decoded ← collect (decodeMember s) d.members
  pure
    [.definition (.conversion d.name) (makeSignature d.name)
        (.line ("BridgeTerm keys[" ++ count ++ "];")
          :: .line ("BridgeTerm values[" ++ count ++ "];")
          :: .line "keys[0] = bridge_make_atom(env, \"__struct__\");"
          :: .line ("values[0] = bridge_make_atom(env, " ++ literal d.backing ++ ");")
          :: encoded ++ [.line ("return bridge_make_map(env, keys, values, " ++ count ++ ");")]),
      .blank,
      .definition (.conversion d.name) (getSignature d.name)
        (.line "BridgeTerm field;" :: decoded ++ [.line "return 1;"]),
      .blank]

/-- The helpers of all structs, which may call each other. -/
def structsItems (s : Surface) : Numbered (List Item) := do
  if s.structs.isEmpty then pure []
  else
    let forward := s.structs.flatMap fun d =>
      [Item.prototype (.conversion d.name) (makeSignature d.name),
        .prototype (.conversion d.name) (getSignature d.name)]
    let defined ← collect (structItems s) s.structs
    pure (forward ++ .blank :: defined)

/-! ### Functions -/

def accessorItems (s : Surface) (f : NativeFunction) (c : Clause) : Numbered (List Item) := do
  let body ← encodeClause s c "result"
  pure [.definition (.accessor f.name f.arity c.accessor) (accessorSignature flavor.returns s f c)
      (.line "BridgeTerm result;" :: body ++ [.line "return result;"]),
    .blank]

def sendItems (s : Surface) (c : Clause) : Numbered (List Item) := do
  let body ← encodeClause s c "message"
  pure [.definition .send (sendSignature s c)
      (.line "BridgeTerm message;" :: body
        ++ [.line "return bridge_send(env, &pid, message, flags);"]),
    .blank]

/-- The name of the wrapper that the export table refers to. -/
def exportName (f : NativeFunction) : String :=
  "export_" ++ ident f.name ++ "_" ++ Text.decimal f.arity

def exportSignature (f : NativeFunction) : Signature where
  isStatic := true
  returns := "BridgeTerm"
  name := exportName f
  params := ["BridgeEnv *env", "int argc", "const BridgeTerm argv[]"]

/-- Take one argument out of the request. -/
def decodeParam (s : Surface) (p : Param) (i : Nat) : Numbered (List Step) :=
  decode s p.type ("argv[" ++ Text.decimal i ++ "]") (ident p.name)
    ("return bridge_raise_badarg(env, " ++ literal p.name ++ ");")

def exportItems (s : Surface) (f : NativeFunction) : Numbered (List Item) := do
  let decoded ← collect (fun (p, i) => decodeParam s p i) f.params.zipIdx
  let locals := (f.params.flatMap fun p => valueLocals s p.name p.type).map Step.line
  pure [.definition (.wrapper f.name f.arity) (exportSignature f)
      (.line "(void)argc;" :: locals ++ decoded ++ [.line (callText s f)]),
    .blank]

/-- A row of the export table. -/
structure ExportRow where
  name : String
  arity : Nat
  wrapper : String
  flags : String
  deriving DecidableEq, Repr, Inhabited

def ExportRow.text (r : ExportRow) : String :=
  "\x7b" ++ literal r.name ++ ", " ++ Text.decimal r.arity ++ ", " ++ r.wrapper ++ ", " ++ r.flags
    ++ "\x7d,"

/-- The flag of a scheduler. -/
def dirtyFlag : Option DirtyKind → String
  | some .cpu => "BRIDGE_DIRTY_CPU"
  | some .io => "BRIDGE_DIRTY_IO"
  | none => "0"

def exportRows (s : Surface) : List ExportRow :=
  s.functions.map fun f => ⟨f.name, f.arity, exportName f, dirtyFlag (s.dirtyKind? f.name f.arity)⟩

def tableItems (s : Surface) : List Item :=
  [.group "static BridgeFunc bridge_funcs[] ="
      ((exportRows s).map (fun r => .line r.text) ++ [.line "\x7bNULL, 0, NULL, 0\x7d,"]) ";",
    .blank]

/-- The function of a hook, or `NULL`. -/
def hookFunction (s : Surface) (h : Hook) : String :=
  match s.callback? h with
  | some c => ident c.function
  | none => "NULL"

def initItem (s : Surface) : Item :=
  .raw ("BRIDGE_INIT(" ++ literal s.moduleName ++ ", bridge_funcs, "
    ++ Text.decimal s.functions.length ++ ", " ++ hookFunction s .load ++ ", "
    ++ hookFunction s .upgrade ++ ", " ++ hookFunction s .unload ++ ")")

/-- The source of a spec. -/
def sourceItems (name : String) (s : Surface) : List Item :=
  let numbered : Numbered (List Item) := do
    let structs ← structsItems s
    let accessors ← collect (fun f => collect (accessorItems s f) f.results) s.functions
    let sends ← collect (sendItems s) s.sends.toList
    let exports ← collect (exportItems s) s.functions
    pure (structs ++ accessors ++ sends ++ exports)
  banner flavor.backend name s
    ++ [.raw ("#include \"" ++ name ++ ".h\""), .blank]
    ++ s.enums.flatMap enumItems
    ++ (numbered.run 0).1
    ++ tableItems s
    ++ [initItem s]

def backend : Backend where
  name := flavor.backend
  header name s := Item.render (headerItems flavor name s)
  source name s := Item.render (sourceItems name s)

end NativeInterface.Nif
