import NativeInterface.Text.Words

/-!
# C names and literals
-/

namespace NativeInterface.C

/-- A character that may stand in a C identifier. -/
def isIdentChar (c : Char) : Bool := c.isAlphanum || c = '_'

def identChar (c : Char) : Char := if isIdentChar c then c else '_'

/-- A name as a C identifier: other characters become `_`, and a leading digit gets one in front. -/
def identChars (cs : List Char) : List Char :=
  let out := cs.map identChar
  match out with
  | c :: _ => if c.isDigit then '_' :: out else out
  | [] => []

def ident (name : String) : String := String.ofList (identChars name.toList)

/-- Identifiers have ASCII letters only, so only those change. -/
def upper (name : String) : String := String.ofList (name.toList.map Char.toUpper)

/-- The constant of an enum variant. -/
def enumConstant (name variant : String) : String := upper (ident name ++ "_" ++ ident variant)

/-- The include guard of a header. -/
def includeGuard (name backend : String) : String :=
  upper ("BRIDGESPEC_" ++ ident name ++ "_" ++ ident backend ++ "_H")

/-- The companion of a list value that holds its length. -/
def lengthName (name : String) : String := name ++ "_length"

/-- How one character is written in a string literal. -/
def literalChar (c : Char) : List Char :=
  if c = '"' then ['\\', '"']
  else if c = '\\' then ['\\', '\\']
  else if c = '\n' then ['\\', 'n']
  else [c]

/-- A string literal. -/
def literal (s : String) : String := String.ofList ('"' :: s.toList.flatMap literalChar ++ ['"'])

/-- Read the characters of a string literal behind its opening quote, with the text behind the
closing one. A raw line feed, an unknown escape and a missing quote are refused. -/
def readLiteralBody : List Char → Option (List Char × List Char)
  | [] => none
  | '"' :: rest => some ([], rest)
  | '\\' :: '"' :: rest => (readLiteralBody rest).map fun (s, r) => ('"' :: s, r)
  | '\\' :: '\\' :: rest => (readLiteralBody rest).map fun (s, r) => ('\\' :: s, r)
  | '\\' :: 'n' :: rest => (readLiteralBody rest).map fun (s, r) => ('\n' :: s, r)
  | '\\' :: _ => none
  | '\n' :: _ => none
  | c :: rest => (readLiteralBody rest).map fun (s, r) => (c :: s, r)

/-- Read a string literal in front of a text, with the rest. -/
def readLiteral? : List Char → Option (List Char × List Char)
  | '"' :: rest => readLiteralBody rest
  | _ => none

end NativeInterface.C
