import NativeInterface.Source.Span
import NativeInterface.Text.Quoted

/-!
# Tokens

There are no reserved words: the word that opens a declaration is a plain identifier.
-/

namespace NativeInterface

/-- What a token is. -/
inductive Token.Kind where
  /-- A lower-case name, which may end in `?` or `!`. -/
  | identifier (name : String)
  /-- A capitalised segment of a dotted name. -/
  | segment (name : String)
  /-- A symbol, without its colon. -/
  | atom (name : String)
  /-- The key of a pair, without its colon. -/
  | key (name : String)
  | integer (value : Int)
  | string (value : String)
  | colonColon
  | pipe
  | dot
  | comma
  | percent
  | lparen
  | rparen
  | lbracket
  | rbracket
  | lbrace
  | rbrace
  /-- The end of a declaration. -/
  | newline
  | eof
  deriving DecidableEq, Repr, Inhabited

namespace Token.Kind

/-- A line break behind such a token does not end the declaration. -/
def continuesLine : Kind → Bool
  | comma | pipe | colonColon | dot | percent | key _ => true
  | _ => false

/-- The end of a line or of the file. -/
def endsLine : Kind → Bool
  | newline | eof => true
  | _ => false

def opens : Kind → Bool
  | lparen | lbracket | lbrace => true
  | _ => false

def closes : Kind → Bool
  | rparen | rbracket | rbrace => true
  | _ => false

/-- The number of open brackets behind a token; a closing bracket too many is not counted. -/
def depthAfter (depth : Nat) (k : Kind) : Nat :=
  if k.opens then depth + 1 else if k.closes then depth - 1 else depth

/-- How a token is named in a message. -/
def text : Kind → String
  | identifier name | segment name => name
  | atom name => ":" ++ name
  | key name => name ++ ":"
  | integer value => Text.signedDecimal value
  | string value => Text.quoted value
  | colonColon => "::"
  | pipe => "|"
  | dot => "."
  | comma => ","
  | percent => "%"
  | lparen => "("
  | rparen => ")"
  | lbracket => "["
  | rbracket => "]"
  | lbrace => "\x7b"
  | rbrace => "\x7d"
  | newline => "newline"
  | eof => "end of file"

end Token.Kind

/-- A token and where it stands. -/
structure Token where
  kind : Token.Kind
  span : Span
  deriving DecidableEq, Repr, Inhabited

end NativeInterface
