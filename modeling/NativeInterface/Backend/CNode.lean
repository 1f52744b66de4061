import NativeInterface.Backend.Basic
import NativeInterface.C.Header

/-!
# The out-of-process backend

A program of its own that speaks the external term format. `bridge_encode_*` appends to a buffer,
`bridge_decode_*` reads at an index and says whether it fits, and requests arrive at
`bridge_dispatch` by name and arity.
-/

namespace NativeInterface.CNode

open C

/-- The function that the runtime calls for every request. -/
def dispatchSignature : Signature where
  returns := "int"
  name := "bridge_dispatch"
  params := ["BridgeEnv *env", "const char *fun", "int arity", "const char *buf", "int *index"]

def flavor : Flavor where
  backend := "cnode"
  runtimeHeader := "bridgespec/cnode.h"
  returns := "int"
  entryPoints := [dispatchSignature]

/-! ### Conversions -/

/-- Append `src` to the buffer; a list is written element by element. -/
def encode (s : Surface) (type : Ty) (src : String) : Numbered (List Step) :=
  match type with
  | .list element => do
    let n := Text.decimal (← fresh)
    let length := lengthName src
    pure (.line ("bridge_encode_list_header(out, " ++ length ++ ");")
      :: loop n length
        [.line (helper s "encode" element ++ "(out, " ++ src ++ "[i_" ++ n ++ "]);")]
      ++ [.line "bridge_encode_empty_list(out);"])
  | type => pure [.line (helper s "encode" type ++ "(out, " ++ src ++ ");")]

/-- Read the next term into `target`, and do `onFail` when it does not fit. -/
def decode (s : Surface) (type : Ty) (target onFail : String) : Numbered (List Step) :=
  match type with
  | .list element => do
    let n := Text.decimal (← fresh)
    let length := lengthName target
    pure (block ("if (!bridge_decode_list_header(buf, index, &" ++ length ++ "))") [.line onFail]
      ++ .line (target ++ " = bridge_alloc(sizeof(*" ++ target ++ ") * " ++ length ++ ");")
      :: loop n length
        (block ("if (!" ++ helper s "decode" element ++ "(buf, index, &" ++ target
            ++ "[i_" ++ n ++ "]))")
          [.line onFail])
      ++ block ("if (" ++ length ++ " > 0 && !bridge_decode_list_tail(buf, index))") [.line onFail])
  | type =>
    pure (block ("if (!" ++ helper s "decode" type ++ "(buf, index, &" ++ target ++ "))")
      [.line onFail])

def encodeItem (s : Surface) (item : ResultItem) : Numbered (List Step) :=
  match item.label with
  | some label => pure [.line ("bridge_encode_atom(out, " ++ literal label ++ ");")]
  | none => encode s item.type (ident item.name)

/-- Append a clause: a bare item, or a tuple of items. -/
def encodeClause (s : Surface) (c : Clause) : Numbered (List Step) := do
  let header :=
    if 1 < c.items.length then
      [Step.line ("bridge_encode_tuple_header(out, " ++ Text.decimal c.items.length ++ ");")]
    else []
  let parts ← collect (encodeItem s) c.items
  pure (header ++ parts)

/-! ### Declared types -/

def encodeSignature (name : String) : Signature where
  isStatic := true
  returns := "void"
  name := "encode_" ++ ident name
  params := ["BridgeBuffer *out", ident name ++ " value"]

def decodeSignature (name : String) : Signature where
  isStatic := true
  returns := "int"
  name := "decode_" ++ ident name
  params := ["const char *buf", "int *index", ident name ++ " *out"]

def enumItems (e : Enum) : List Item :=
  [.definition (.conversion e.name) (encodeSignature e.name)
      ((e.variants.flatMap fun v =>
          block ("if (value == " ++ enumConstant e.name v ++ ")")
            [.line ("bridge_encode_atom(out, " ++ literal v ++ ");"), .line "return;"])
        ++ [.line "bridge_encode_atom(out, \"undefined\");"]),
    .blank,
    .definition (.conversion e.name) (decodeSignature e.name)
      (.line "char *atom = NULL;"
        :: block "if (!bridge_decode_atom(buf, index, &atom))" [.line "return 0;"]
        ++ (e.variants.flatMap fun v =>
          block ("if (strcmp(atom, " ++ literal v ++ ") == 0)")
            [.line ("*out = " ++ enumConstant e.name v ++ ";"), .line "return 1;"])
        ++ [.line "return 0;"]),
    .blank]

/-- Append the key and the value of one field. -/
def encodeMember (s : Surface) (m : Member) : Numbered (List Step) := do
  let value ← encode s m.type ("value." ++ ident m.name)
  pure (.line ("bridge_encode_atom(out, " ++ literal m.name ++ ");") :: value)

/-- Read the value of one field when its key has been read. -/
def decodeMember (s : Surface) (m : Member) : Numbered (List Step) := do
  let value ← decode s m.type ("out->" ++ ident m.name) "return 0;"
  pure (block ("if (strcmp(key, " ++ literal m.name ++ ") == 0)") (value ++ [.line "continue;"]))

def structItems (s : Surface) (d : Struct) : Numbered (List Item) := do
  let encoded ← collect (encodeMember s) d.members
  let decoded ← collect (decodeMember s) d.members
  pure
    [.definition (.conversion d.name) (encodeSignature d.name)
        (.line ("bridge_encode_map_header(out, " ++ Text.decimal (d.members.length + 1) ++ ");")
          :: .line "bridge_encode_atom(out, \"__struct__\");"
          :: .line ("bridge_encode_atom(out, " ++ literal d.backing ++ ");")
          :: encoded),
      .blank,
      .definition (.conversion d.name) (decodeSignature d.name)
        (.line "int arity = 0;"
          :: block "if (!bridge_decode_map_header(buf, index, &arity))" [.line "return 0;"]
          ++ block "for (int i = 0; i < arity; i++)"
            (.line "char *key = NULL;"
              :: block "if (!bridge_decode_atom(buf, index, &key))" [.line "return 0;"]
              ++ decoded
              ++ block "if (!bridge_skip_term(buf, index))" [.line "return 0;"])
          ++ [.line "return 1;"]),
      .blank]

/-- The helpers of all structs, which may call each other. -/
def structsItems (s : Surface) : Numbered (List Item) := do
  if s.structs.isEmpty then pure []
  else
    let forward := s.structs.flatMap fun d =>
      [Item.prototype (.conversion d.name) (encodeSignature d.name),
        .prototype (.conversion d.name) (decodeSignature d.name)]
    let defined ← collect (structItems s) s.structs
    pure (forward ++ .blank :: defined)

/-! ### Functions -/

def accessorItems (s : Surface) (f : NativeFunction) (c : Clause) : Numbered (List Item) := do
  let body ← encodeClause s c
  pure [.definition (.accessor f.name f.arity c.accessor) (accessorSignature flavor.returns s f c)
      (.line "BridgeBuffer *out = bridge_reply_buffer(env);" :: body
        ++ [.line "return bridge_reply(env);"]),
    .blank]

def sendItems (s : Surface) (c : Clause) : Numbered (List Item) := do
  let body ← encodeClause s c
  pure [.definition .send (sendSignature s c)
      (.line "BridgeBuffer *out = bridge_send_buffer(env);" :: body
        ++ [.line "return bridge_send(env, &pid, flags);"]),
    .blank]

/-- The name of the wrapper that the dispatcher calls. -/
def wrapperName (f : NativeFunction) : String :=
  "dispatch_" ++ ident f.name ++ "_" ++ Text.decimal f.arity

def wrapperSignature (f : NativeFunction) : Signature where
  isStatic := true
  returns := "int"
  name := wrapperName f
  params := ["BridgeEnv *env", "const char *buf", "int *index"]

/-- Statements that use the parameters of a function that needs neither. -/
def unusedRequest : List Step := [.line "(void)buf;", .line "(void)index;"]

/-- Take one argument out of the request. -/
def decodeParam (s : Surface) (p : Param) : Numbered (List Step) :=
  decode s p.type (ident p.name) ("return bridge_reply_badarg(env, " ++ literal p.name ++ ");")

def wrapperItems (s : Surface) (f : NativeFunction) : Numbered (List Item) := do
  let decoded ← collect (decodeParam s) f.params
  let locals := (f.params.flatMap fun p => valueLocals s p.name p.type).map Step.line
  pure [.definition (.wrapper f.name f.arity) (wrapperSignature f)
      (locals ++ decoded ++ (if f.params.isEmpty then unusedRequest else [])
        ++ [.line (callText s f)]),
    .blank]

/-- A branch of the dispatcher. -/
structure Branch where
  name : String
  arity : Nat
  wrapper : String
  deriving DecidableEq, Repr, Inhabited

def Branch.steps (b : Branch) : List Step :=
  block
    ("if (arity == " ++ Text.decimal b.arity ++ " && strcmp(fun, " ++ literal b.name ++ ") == 0)")
    [.line ("return " ++ b.wrapper ++ "(env, buf, index);")]

def branches (s : Surface) : List Branch :=
  s.functions.map fun f => ⟨f.name, f.arity, wrapperName f⟩

def dispatchItems (s : Surface) : List Item :=
  [.definition .entry dispatchSignature
      ((if s.functions.isEmpty then unusedRequest else [])
        ++ (branches s).flatMap Branch.steps
        ++ [.line "return bridge_reply_undefined(env, fun, arity);"]),
    .blank]

def mainSignature : Signature where
  returns := "int"
  name := "main"
  params := ["int argc", "char **argv"]

/-- The program starts in the callback of its own, if there is one. -/
def mainItem (s : Surface) : Item :=
  .definition .entry mainSignature
    [match s.callback? .main with
      | some c => .line ("return " ++ ident c.function ++ "(argc, argv);")
      | none =>
        .line ("return bridge_cnode_main(argc, argv, " ++ literal s.moduleName
          ++ ", bridge_dispatch);")]

/-- The source of a spec. -/
def sourceItems (name : String) (s : Surface) : List Item :=
  let numbered : Numbered (List Item) := do
    let structs ← structsItems s
    let accessors ← collect (fun f => collect (accessorItems s f) f.results) s.functions
    let sends ← collect (sendItems s) s.sends.toList
    let wrappers ← collect (wrapperItems s) s.functions
    pure (structs ++ accessors ++ sends ++ wrappers)
  banner flavor.backend name s
    ++ [.raw "#include <string.h>", .raw ("#include \"" ++ name ++ ".h\""), .blank]
    ++ s.enums.flatMap enumItems
    ++ (numbered.run 0).1
    ++ dispatchItems s
    ++ [mainItem s]

def backend : Backend where
  name := flavor.backend
  header name s := Item.render (headerItems flavor name s)
  source name s := Item.render (sourceItems name s)

end NativeInterface.CNode
