import NativeInterface.Source.Span
import NativeInterface.Text.Quoted

/-!
# Expressions

The payload of a declaration is made of a few generic shapes. A declaration kind gives them a
meaning later. Every expression can be written back in the surface form.
-/

namespace NativeInterface

/-- A name and where it stands. -/
structure Ident where
  name : String
  span : Span
  deriving DecidableEq, Repr, Inhabited

/-- An expression and where it stands. -/
inductive Expr where
  | ident (name : String) (span : Span)
  /-- A dotted name, one part for each segment. -/
  | dotted (parts : List String) (span : Span)
  | atom (name : String) (span : Span)
  | int (value : Int) (span : Span)
  | str (value : String) (span : Span)
  | list (items : List Expr) (span : Span)
  | tuple (items : List Expr) (span : Span)
  | call (name : Ident) (args : List Expr) (span : Span)
  /-- `lhs :: rhs` -/
  | typed (lhs rhs : Expr) (span : Span)
  /-- `lhs | rhs` -/
  | alt (lhs rhs : Expr) (span : Span)
  /-- `%Name{key: value, ...}` -/
  | map (name : List String) (entries : List (Ident × Expr)) (span : Span)
  /-- `key: value, ...` -/
  | keyword (pairs : List (Ident × Expr)) (span : Span)
  deriving Repr, Inhabited

namespace Expr

def span : Expr → Span
  | ident _ s | dotted _ s | atom _ s | int _ s | str _ s | list _ s | tuple _ s | call _ _ s
  | typed _ _ s | alt _ _ s | map _ _ s | keyword _ s => s

/-- The name of a bare identifier. -/
def ident? : Expr → Option String
  | ident name _ => some name
  | _ => none

/-- The symbol of an atom. -/
def atom? : Expr → Option String
  | atom name _ => some name
  | _ => none

/-- `:name` or `name`. -/
def symbol? : Expr → Option String
  | atom name _ | ident name _ => some name
  | _ => none

/-- The alternatives of a tree of `|`, from left to right. -/
def alternatives : Expr → List Expr
  | alt lhs rhs _ => lhs.alternatives ++ rhs.alternatives
  | e => [e]

mutual

/-- The surface form of an expression. -/
def text : Expr → String
  | ident name _ => name
  | dotted parts _ => Text.join "." parts
  | atom name _ => ":" ++ name
  | int value _ => Text.signedDecimal value
  | str value _ => Text.quoted value
  | list items _ => "[" ++ Text.join ", " (texts items) ++ "]"
  | tuple items _ => "\x7b" ++ Text.join ", " (texts items) ++ "\x7d"
  | call name args _ => name.name ++ "(" ++ Text.join ", " (texts args) ++ ")"
  | typed lhs rhs _ => lhs.text ++ " :: " ++ rhs.text
  | alt lhs rhs _ => lhs.text ++ " | " ++ rhs.text
  | map name entries _ =>
    "%" ++ Text.join "." name ++ "\x7b" ++ Text.join ", " (pairTexts entries) ++ "\x7d"
  | keyword pairs _ => Text.join ", " (pairTexts pairs)

/-- The surface forms of expressions. -/
def texts : List Expr → List String
  | [] => []
  | e :: es => e.text :: texts es

/-- The surface forms of pairs. -/
def pairTexts : List (Ident × Expr) → List String
  | [] => []
  | (key, value) :: rest => (key.name ++ ": " ++ value.text) :: pairTexts rest

end

end Expr

/-- A kind word and its payload. -/
structure Declaration where
  kind : Ident
  payload : List Expr
  span : Span
  deriving Repr, Inhabited

/-- The kind and the payload in the surface form, without blanks at the end. -/
def Declaration.text (d : Declaration) : String :=
  Text.trimRight (d.kind.name ++ " " ++ Text.join ", " (Expr.texts d.payload))

end NativeInterface
