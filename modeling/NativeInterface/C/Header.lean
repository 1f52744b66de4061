import NativeInterface.C.Item
import NativeInterface.Surface.Digest

/-!
# Headers

All backends declare the same symbols. They differ in the runtime header that they include, in what
a result accessor returns and in the entry points that the runtime expects.
-/

namespace NativeInterface.C

/-- What distinguishes the header of a backend. -/
structure Flavor where
  backend : String
  /-- The header of the runtime. -/
  runtimeHeader : String
  /-- What implementations and result accessors return. -/
  returns : String
  /-- Functions that the source defines for the runtime. -/
  entryPoints : List Signature
  deriving DecidableEq, Repr, Inhabited

/-- The comment on top of every file. -/
def banner (backend name : String) (s : Surface) : List Item :=
  [.raw ("/* Generated by bridgespec from " ++ name ++ specSuffix ++ ". Do not edit."),
    .raw (" * module: " ++ s.moduleName),
    .raw (" * backend: " ++ backend),
    .raw (" * ir-digest: " ++ s.digest),
    .raw " */"]

/-- The path of the hand-written header, seen from a generated file. -/
def userHeaderPath (name : String) : String := "../../" ++ name ++ ".h"

/-- A comment, one item for each prototype and a blank line; nothing when there are none. -/
def titled (title : String) (items : List Item) : List Item :=
  if items.isEmpty then [] else .raw ("/* " ++ title ++ " */") :: items ++ [.blank]

def enumItems (e : Enum) : List Item :=
  [.group ("typedef enum " ++ ident e.name ++ "_t")
      (e.variants.map fun v => .line (enumConstant e.name v ++ ","))
      (" " ++ ident e.name ++ ";"),
    .blank]

def structItems (s : Surface) (d : Struct) : List Item :=
  [.group ("struct " ++ ident d.name ++ "_t")
      ((d.members.flatMap fun m => valueDecls s m.name m.type).map fun decl => .line (decl ++ ";"))
      ";",
    .blank]

/-- The forward declaration of a struct. -/
def structName (d : Struct) : Item :=
  .raw ("typedef struct " ++ ident d.name ++ "_t " ++ ident d.name ++ ";")

def typeItems (s : Surface) : List Item :=
  s.enums.flatMap enumItems
    ++ if s.structs.isEmpty then []
      else s.structs.map structName ++ .blank :: s.structs.flatMap (structItems s)

/-- The prototypes of the implementations. -/
def implPrototypes (returns : String) (s : Surface) : List Item :=
  s.functions.map fun f =>
    .prototype (.implementation f.name f.arity) (implSignature returns s f)

/-- The prototypes of the result accessors, function by function and clause by clause. -/
def accessorPrototypes (returns : String) (s : Surface) : List Item :=
  s.functions.flatMap fun f => f.results.map fun c =>
    .prototype (.accessor f.name f.arity c.accessor) (accessorSignature returns s f c)

def functionItems (returns : String) (s : Surface) : List Item :=
  if s.functions.isEmpty then []
  else
    .raw "/* native implementations */" :: implPrototypes returns s
      ++ .blank :: .raw "/* result accessors */" :: accessorPrototypes returns s ++ [.blank]

def prototypeItems (flavor : Flavor) (s : Surface) : List Item :=
  functionItems flavor.returns s
    ++ titled "messages" (s.sends.toList.map fun c => .prototype .send (sendSignature s c))
    ++ titled "lifecycle callbacks"
      (s.callbacks.map fun c => .prototype (.callback c.hook) (callbackSignature c))
    ++ titled "runtime entry points" (flavor.entryPoints.map (.prototype .entry))

/-- The forward declaration of the state type. -/
def stateItems (s : Surface) : List Item :=
  match s.stateType with
  | some name => [.raw ("typedef struct " ++ ident name ++ " " ++ ident name ++ ";"), .blank]
  | none => []

/-- The header of a spec. -/
def headerItems (flavor : Flavor) (name : String) (s : Surface) : List Item :=
  let fence := includeGuard name flavor.backend
  banner flavor.backend name s
    ++ [.raw ("#ifndef " ++ fence), .raw ("#define " ++ fence), .blank,
      .raw "#include <stdint.h>", .raw ("#include <" ++ flavor.runtimeHeader ++ ">"), .blank]
    ++ stateItems s
    ++ [.raw ("#include \"" ++ userHeaderPath name ++ "\""), .blank]
    ++ typeItems s
    ++ prototypeItems flavor s
    ++ [.raw ("#endif /* " ++ fence ++ " */")]

end NativeInterface.C
