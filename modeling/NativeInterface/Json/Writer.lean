import NativeInterface.Json.Basic

/-!
# Writing JSON

Two forms of one value: the compact one without blanks, and the pretty one with two blanks for each
level. Only quotes, backslashes and the controls below U+0020 are escaped.
-/

namespace NativeInterface.Json

/-- How one character of a string is written. -/
def escapedChar (c : Char) : List Char :=
  if c = '"' then ['\\', '"']
  else if c = '\\' then ['\\', '\\']
  else if c = '\x08' then ['\\', 'b']
  else if c = '\x0c' then ['\\', 'f']
  else if c = '\n' then ['\\', 'n']
  else if c = '\r' then ['\\', 'r']
  else if c = '\t' then ['\\', 't']
  else if c.toNat < 0x20 then ['\\', 'u'] ++ (Text.hex 4 c.toNat).toList
  else [c]

/-- A string between its quotes. -/
def escaped (s : String) : String := String.ofList ('"' :: s.toList.flatMap escapedChar ++ ['"'])

mutual

/-- The form without blanks. -/
def compact : Json → String
  | null => "null"
  | bool true => "true"
  | bool false => "false"
  | int n => Text.signedDecimal n
  | real text => text
  | str s => escaped s
  | arr items => "[" ++ Text.join "," (compacts items) ++ "]"
  | obj fields => "\x7b" ++ Text.join "," (compactFields fields) ++ "\x7d"

def compacts : List Json → List String
  | [] => []
  | j :: js => j.compact :: compacts js

def compactFields : List (String × Json) → List String
  | [] => []
  | (name, j) :: rest => (escaped name ++ ":" ++ j.compact) :: compactFields rest

end

/-- A new line at a level. -/
def newLine (level : Nat) : String := "\n" ++ String.ofList (List.replicate (2 * level) ' ')

/-- The parts of an array or object on lines of their own. -/
def spread (level : Nat) (left right : String) (parts : List String) : String :=
  if parts.isEmpty then left ++ right
  else
    left ++ newLine (level + 1) ++ Text.join ("," ++ newLine (level + 1)) parts ++ newLine level
      ++ right

mutual

/-- The form with line breaks, for a value that stands at a level. -/
def prettyAt (level : Nat) : Json → String
  | null => "null"
  | bool true => "true"
  | bool false => "false"
  | int n => Text.signedDecimal n
  | real text => text
  | str s => escaped s
  | arr items => spread level "[" "]" (prettiesAt (level + 1) items)
  | obj fields => spread level "\x7b" "\x7d" (prettyFieldsAt (level + 1) fields)

def prettiesAt (level : Nat) : List Json → List String
  | [] => []
  | j :: js => prettyAt level j :: prettiesAt level js

def prettyFieldsAt (level : Nat) : List (String × Json) → List String
  | [] => []
  | (name, j) :: rest => (escaped name ++ ": " ++ prettyAt level j) :: prettyFieldsAt level rest

end

/-- The form with line breaks. -/
def pretty (j : Json) : String := prettyAt 0 j

end NativeInterface.Json
