import NativeInterface.Diagnostic

/-!
# Faults of declarations

What can be wrong with declarations that could be read. The first one ends the compilation of a
file.
-/

namespace NativeInterface

/-- Why a declaration has not the shape that its kind requires. -/
inductive Reason where
  | unknownKind
  | argumentCount (expected got : Nat)
  | moduleName
  | interfaceTag
  | stateType
  | signature
  | functionHead
  | listArgument
  | listArgumentCount
  | argumentName
  | argument
  | labelAsType
  | listTypeCount
  | type
  | labelSymbol
  | typedSymbol
  | typeDefinition
  | typeAlias
  | typeBody
  | variantSymbol
  | repeatedField (name : String)
  | listField
  | fieldType
  | dirtyShape
  | dirtyKind
  | dirtyEmpty
  | functionName
  | functionPair
  | functionArity
  | arity
  | callbackShape
  | hookSymbol
  deriving DecidableEq, Repr, Inhabited

namespace Reason

def text : Reason → String
  | unknownKind => "unknown declaration kind"
  | argumentCount expected got =>
    "expected " ++ Text.decimal expected ++ " argument" ++ (if expected = 1 then "" else "s")
      ++ ", got " ++ Text.decimal got
  | moduleName => "expected a module name such as `My.Module`"
  | interfaceTag => "expected an interface tag such as `NIF` or `:cnode`"
  | stateType => "expected a state type name"
  | signature => "expected `name(args) :: results`"
  | functionHead => "expected a function head"
  | listArgument => "expected `[name]`"
  | listArgumentCount => "a list argument holds exactly one name"
  | argumentName => "expected an argument name"
  | argument => "expected an argument"
  | labelAsType => "'label' is only allowed in result clauses"
  | listTypeCount => "a list type holds exactly one element type"
  | type => "expected a type"
  | labelSymbol => "expected a label symbol"
  | typedSymbol => "a symbol can only be typed as `label`"
  | typeDefinition => "expected `alias :: definition`"
  | typeAlias => "expected a lower-case type alias"
  | typeBody => "expected `%Struct\x7b...\x7d` or `:a | :b`"
  | variantSymbol => "enum variants must be symbols"
  | repeatedField name => "field '" ++ name ++ "' appears twice"
  | listField => "expected `[type]`"
  | fieldType => "expected a field type"
  | dirtyShape => "expected `dirty :cpu, fun: arity, ...`"
  | dirtyKind => "expected :cpu or :io"
  | dirtyEmpty => "no functions listed"
  | functionName => "expected a function name"
  | functionPair => "expected `\x7bfun, arity\x7d`"
  | functionArity => "expected `fun: arity`"
  | arity => "expected a non-negative arity"
  | callbackShape => "expected `callback :hook` or `callback :hook, :function`"
  | hookSymbol => "expected a hook symbol"

end Reason

/-- A fault in the declarations of a file, or in the choice of its backend. -/
inductive Fault where
  /-- `fragment` is the part at fault in the surface form. -/
  | malformed (kind fragment : String) (reason : Reason) (span : Span)
  | invalidDirtyKind (kind : String) (span : Span)
  | invalidHook (hook : String) (span : Span)
  /-- A name that is neither primitive nor declared earlier. -/
  | unknownType (name usedIn : String) (span : Span)
  | emptyLabelSet (function : String) (clause : Nat) (span : Span)
  | duplicateAccessor (function name : String) (span : Span)
  | duplicateResultName (function name : String) (span : Span)
  | duplicateFunction (name : String) (arity : Nat) (span : Span)
  | duplicateTypeAlias (name : String) (span : Span)
  | interfaceNotSpecified (moduleName : String)
  | unknownBackend (tag : String)
  deriving DecidableEq, Repr, Inhabited

namespace Fault

def code : Fault → Code
  | malformed .. => Code.malformedDeclaration
  | invalidDirtyKind .. => Code.invalidDirtyKind
  | invalidHook .. => Code.invalidHook
  | unknownType .. => Code.unknownType
  | emptyLabelSet .. => Code.emptyLabelSet
  | duplicateAccessor .. => Code.duplicateAccessor
  | duplicateResultName .. => Code.duplicateResultName
  | duplicateFunction .. => Code.duplicateFunction
  | duplicateTypeAlias .. => Code.duplicateTypeAlias
  | interfaceNotSpecified .. => Code.interfaceNotSpecified
  | unknownBackend .. => Code.unknownBackend

/-- Where the fault is; a choice of backend is no place in the file. -/
def span? : Fault → Option Span
  | malformed _ _ _ span | invalidDirtyKind _ span | invalidHook _ span | unknownType _ _ span
  | emptyLabelSet _ _ span | duplicateAccessor _ _ span | duplicateResultName _ _ span
  | duplicateFunction _ _ span | duplicateTypeAlias _ span => some span
  | interfaceNotSpecified _ | unknownBackend _ => none

def message : Fault → String
  | malformed kind fragment reason _ =>
    "malformed '" ++ kind ++ "' declaration: " ++ reason.text ++ " in `" ++ fragment ++ "`"
  | invalidDirtyKind kind _ => "invalid dirty kind '" ++ kind ++ "', expected one of: cpu, io"
  | invalidHook hook _ =>
    "invalid callback hook '" ++ hook ++ "', expected one of: load, upgrade, unload, main"
  | unknownType name usedIn _ => "unknown type '" ++ name ++ "' used in '" ++ usedIn ++ "'"
  | emptyLabelSet function clause _ =>
    "result clause #" ++ Text.decimal clause ++ " of '" ++ function ++ "' has no label"
  | duplicateAccessor function name _ =>
    "'" ++ function ++ "' has two result clauses with the same accessor '" ++ name ++ "'"
  | duplicateResultName function name _ =>
    "'" ++ function ++ "' returns two values named '" ++ name ++ "' in one clause"
  | duplicateFunction name arity _ =>
    "function '" ++ name ++ "/" ++ Text.decimal arity ++ "' is declared more than once"
  | duplicateTypeAlias name _ => "type alias '" ++ name ++ "' is declared more than once"
  | interfaceNotSpecified moduleName =>
    "no interface declared for module '" ++ moduleName
      ++ "' and none found in project configuration"
  | unknownBackend tag => "no backend registered for interface '" ++ tag ++ "'"

/-- What the author may do about it. -/
def suggestion? : Fault → Option String
  | unknownType name usedIn _ =>
    some ("declare type '" ++ name ++ "' before '" ++ usedIn ++ "', or use a primitive type")
  | emptyLabelSet .. => some "start the clause with a label, e.g. \x7b:ok :: label, ...\x7d"
  | interfaceNotSpecified moduleName =>
    some ("add `interface NIF` to the spec, or list '" ++ moduleName
      ++ "' in the project configuration")
  | _ => none

/-- The fault as a diagnostic of its file. A fault without a place is shown at the start of the
file, without a source line. -/
def diagnostic (f : SourceFile) (fault : Fault) : Diagnostic :=
  let shown := match fault.span? with
    | some span => Diagnostic.inFile f fault.code fault.message span
    | none => Diagnostic.ofCode f.name fault.code fault.message (.point 1 1) ""
  { shown with suggestion := fault.suggestion? }

end Fault

end NativeInterface
