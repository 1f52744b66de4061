import NativeInterface.Diagnostic
import NativeInterface.Token.Basic

/-!
# Lexemes

A source text is cut into lexemes, one behind the other: blanks, comments, line feeds, token texts
and characters that belong to nothing. How a text is cut depends on the text alone; places, line
ends and limits come later, in the token list.
-/

namespace NativeInterface

/-- What can be wrong with the characters of a file. -/
inductive LexFault where
  /-- A byte that starts no token. -/
  | unexpectedByte (byte : UInt8)
  /-- A colon with neither a symbol nor a second colon behind it. -/
  | loneColon
  /-- An integer of more than 63 bits. -/
  | integerRange (digits : String)
  | unterminatedString
  | unclosedBracket
  deriving DecidableEq, Repr, Inhabited

namespace LexFault

def code : LexFault → Code
  | unterminatedString | unclosedBracket => Code.unclosedDelimiter
  | _ => Code.unexpectedToken

/-- A byte is shown as the character with its number. -/
def message : LexFault → String
  | unexpectedByte byte =>
    "unexpected character '" ++ String.singleton (Char.ofNat byte.toNat) ++ "'"
  | loneColon => "expected a symbol name or ':' after ':'"
  | integerRange digits => "integer literal '" ++ digits ++ "' is out of range"
  | unterminatedString => "unterminated string literal"
  | unclosedBracket => "unclosed bracket at end of file"

end LexFault

namespace Lexeme

/-- What a lexeme stands for. -/
inductive Reading where
  /-- Blanks or a comment. -/
  | blank
  | lineFeed
  /-- A token, which may be faulty. -/
  | token (kind : Token.Kind) (fault : Option LexFault)
  | loneColon
  /-- A character that starts no token. -/
  | stray (c : Char)
  deriving DecidableEq, Repr, Inhabited

end Lexeme

/-- A stretch of text that is read as one thing. -/
structure Lexeme where
  text : List Char
  reading : Lexeme.Reading
  deriving DecidableEq, Repr, Inhabited

namespace Lexeme

def isSpace (c : Char) : Bool := c = ' ' || c = '\t' || c = '\r'

def isWord (c : Char) : Bool := c.isAlphanum || c = '_'

def startsIdentifier (c : Char) : Bool := c.isLower || c = '_'

def startsAtom (c : Char) : Bool := c.isAlpha || c = '_'

def isDigitOrSeparator (c : Char) : Bool := c.isDigit || c = '_'

/-- The rest of a name behind its first character: word characters, then at most one `?` or `!`. -/
def nameTail (cs : List Char) : List Char :=
  cs.takeWhile isWord ++ (cs.dropWhile isWord).head?.toList.filter fun c => c = '?' || c = '!'

/-- The largest value of an integer token. -/
def maxInteger : Nat := 0x7fffffffffffffff

/-- The integer that digits and separators spell. -/
def integer (cs : List Char) : Reading :=
  let digits := cs.filter (· ≠ '_')
  match Text.readDecimal digits with
  | some n =>
    if n ≤ maxInteger then .token (.integer n) none
    else .token (.integer 0) (some (.integerRange (String.ofList digits)))
  | none => .token (.integer 0) (some (.integerRange (String.ofList digits)))

/-- What a character behind a backslash stands for. -/
def unescape (c : Char) : Char :=
  if c = 'n' then '\n' else if c = 't' then '\t' else c

/-- A string literal behind its opening quote. -/
structure Literal where
  /-- The characters that it stands for. -/
  value : List Char
  /-- The characters that it is written with, its closing quote included. -/
  text : List Char
  closed : Bool
  deriving DecidableEq, Repr, Inhabited

/-- Read a string literal up to its closing quote, or up to an unescaped line feed or the end of the
text, which leave it open. -/
def literal : List Char → Literal
  | [] => ⟨[], [], false⟩
  | '\\' :: [] => ⟨[], ['\\'], false⟩
  | '\\' :: c :: cs =>
    let tail := literal cs
    ⟨unescape c :: tail.value, '\\' :: c :: tail.text, tail.closed⟩
  | c :: cs =>
    if c = '\n' then ⟨[], [], false⟩
    else if c = '"' then ⟨[], ['"'], true⟩
    else
      let tail := literal cs
      ⟨c :: tail.value, c :: tail.text, tail.closed⟩

/-- The token of a character that is a token by itself. -/
def punctuation? : Char → Option Token.Kind
  | '|' => some .pipe
  | '.' => some .dot
  | ',' => some .comma
  | '%' => some .percent
  | '(' => some .lparen
  | ')' => some .rparen
  | '[' => some .lbracket
  | ']' => some .rbracket
  | '\x7b' => some .lbrace
  | '\x7d' => some .rbrace
  | _ => none

/-- A lower-case name is a key when one colon follows it, and an identifier otherwise. -/
def nameOrKey (c : Char) (cs : List Char) : Reading × List Char :=
  let tail := nameTail cs
  let name := String.ofList (c :: tail)
  match cs.drop tail.length with
  | ':' :: rest =>
    if rest.head? = some ':' then (.token (.identifier name) none, tail)
    else (.token (.key name) none, tail ++ [':'])
  | _ => (.token (.identifier name) none, tail)

/-- What a colon starts: `::`, a symbol, or nothing. -/
def colon (cs : List Char) : Reading × List Char :=
  match cs with
  | c :: rest =>
    if c = ':' then (.token .colonColon none, [':'])
    else if startsAtom c then
      let name := c :: nameTail rest
      (.token (.atom (String.ofList name)) none, name)
    else (.loneColon, [])
  | [] => (.loneColon, [])

/-- The reading of the lexeme that starts with `c`, and how much of the text behind `c` belongs to
it. -/
def scan (c : Char) (cs : List Char) : Reading × List Char :=
  if isSpace c then (.blank, cs.takeWhile isSpace)
  else if c = '#' then (.blank, cs.takeWhile (· ≠ '\n'))
  else if c = '\n' then (.lineFeed, [])
  else if startsIdentifier c then nameOrKey c cs
  else if c.isUpper then
    let tail := cs.takeWhile isWord
    (.token (.segment (String.ofList (c :: tail))) none, tail)
  else if c.isDigit then
    let tail := cs.takeWhile isDigitOrSeparator
    (integer (c :: tail), tail)
  else if c = '"' then
    let body := literal cs
    (.token (.string (String.ofList body.value))
      (if body.closed then none else some .unterminatedString), body.text)
  else if c = ':' then colon cs
  else match punctuation? c with
    | some kind => (.token kind none, [])
    | none => (.stray c, [])

/-- All lexemes of a text, in order. -/
def all : List Char → List Lexeme
  | [] => []
  | c :: cs =>
    let found := scan c cs
    ⟨c :: found.2, found.1⟩ :: all (cs.drop found.2.length)
termination_by cs => cs.length
decreasing_by simp only [List.length_drop, List.length_cons]; omega

end Lexeme

end NativeInterface
