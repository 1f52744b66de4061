import NativeInterface.Source.File

/-!
# Diagnostics

A diagnostic is a fault made ready for a reader: where it is, its number, what it says and the line
it is about. A collection keeps the first twenty and counts the rest.
-/

namespace NativeInterface

/-- The four kinds of fault. -/
inductive Category where
  | grammar
  | resolution
  | uniqueness
  | selection
  deriving DecidableEq, Repr, Inhabited

def Category.text : Category → String
  | .grammar => "grammar"
  | .resolution => "resolution"
  | .uniqueness => "uniqueness"
  | .selection => "selection"

def Category.ofText? : String → Option Category
  | "grammar" => some .grammar
  | "resolution" => some .resolution
  | "uniqueness" => some .uniqueness
  | "selection" => some .selection
  | _ => none

/-- The number of a fault. -/
abbrev Code := Nat

namespace Code

def unexpectedToken : Code := 100
def unclosedDelimiter : Code := 101
def nestingTooDeep : Code := 102
def malformedDeclaration : Code := 110
def invalidDirtyKind : Code := 111
def invalidHook : Code := 112
def unknownType : Code := 200
def duplicateFunction : Code := 300
def duplicateAccessor : Code := 301
def duplicateTypeAlias : Code := 302
def emptyLabelSet : Code := 303
def duplicateResultName : Code := 304
def interfaceNotSpecified : Code := 400
def unknownBackend : Code := 401

/-- The hundreds of a code decide its category. -/
def category (code : Code) : Category :=
  if 200 ≤ code ∧ code ≤ 299 then .resolution
  else if 300 ≤ code ∧ code ≤ 399 then .uniqueness
  else if 400 ≤ code ∧ code ≤ 499 then .selection
  else .grammar

def text (code : Code) : String := "E" ++ Text.decimal code

end Code

/-- A fault as it is shown. -/
structure Diagnostic where
  file : String
  code : Code
  category : Category
  message : String
  span : Span
  sourceLine : String
  suggestion : Option String := none
  deriving DecidableEq, Repr, Inhabited

namespace Diagnostic

/-- A diagnostic whose category follows from its code. -/
def ofCode (file : String) (code : Code) (message : String) (span : Span) (sourceLine : String) :
    Diagnostic :=
  { file, code, category := code.category, message, span, sourceLine }

/-- The diagnostic of a fault at a place of a file, with the line it starts on. -/
def inFile (f : SourceFile) (code : Code) (message : String) (span : Span) : Diagnostic :=
  ofCode f.name code message span (f.context span.startLine)

/-- The one-line form of a diagnostic. -/
def text (d : Diagnostic) : String :=
  d.file ++ ":" ++ d.span.text ++ ": " ++ d.code.text ++ " [" ++ d.category.text ++ "] "
    ++ d.message

end Diagnostic

/-- The diagnostics of one file: the stored ones and the number of all. -/
structure Diagnostics where
  stored : List Diagnostic := []
  total : Nat := 0
  deriving DecidableEq, Repr, Inhabited

namespace Diagnostics

/-- How many diagnostics are stored; reading a file stops there too. -/
def limit : Nat := 20

def empty : Diagnostics := {}

/-- Count a diagnostic, and store it while there is room. -/
def push (ds : Diagnostics) (d : Diagnostic) : Diagnostics :=
  { stored := if ds.stored.length < limit then ds.stored ++ [d] else ds.stored
    total := ds.total + 1 }

def single (d : Diagnostic) : Diagnostics := empty.push d

def ofList (ds : List Diagnostic) : Diagnostics := ds.foldl push empty

def hasErrors (ds : Diagnostics) : Bool := 0 < ds.total

def isFull (ds : Diagnostics) : Bool := limit ≤ ds.total

/-- One line for each stored diagnostic, and how many more there are. -/
def text (ds : Diagnostics) : String :=
  let shown := String.join (ds.stored.map fun d => d.text ++ "\n")
  if ds.stored.length < ds.total then
    shown ++ "... and " ++ Text.decimal (ds.total - ds.stored.length) ++ " more\n"
  else shown

end Diagnostics

end NativeInterface
