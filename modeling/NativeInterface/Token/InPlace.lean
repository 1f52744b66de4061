import NativeInterface.Text.Bytes
import NativeInterface.Token.Lexer

/-!
# Reading tokens in place

One cursor is moved over the bytes of a text, byte by byte, and a byte is looked at as the character
with its number. Faults are reported as they are found. How often a loop may go round is a number
given from outside: a run that needs more turns has no result, and a run that would never end has
none for any number.
-/

namespace NativeInterface.Lexed.InPlace
open Token (Kind)
open Lexeme

/-- A byte as the character with its number. -/
def byteChar (b : UInt8) : Char := Char.ofNat b.toNat

/-- The place behind one byte. -/
def nextByte (p : Position) (b : UInt8) : Position :=
  if b = 10 then ⟨p.line + 1, 1⟩ else ⟨p.line, p.column + 1⟩

/-- Everything that a run changes, and the bytes that it reads. -/
structure State where
  file : SourceFile
  bytes : List UInt8
  /-- The number of bytes before the cursor. -/
  offset : Nat := 0
  position : Position := Position.start
  /-- Open brackets. -/
  depth : Nat := 0
  found : Diagnostics := .empty

namespace State

/-- The state before the first byte of a file. -/
def start (f : SourceFile) : State := { file := f, bytes := f.text.toUTF8.data.toList }

/-- The next byte. -/
def byte? (s : State) : Option UInt8 := s.bytes[s.offset]?

/-- The next byte, as a character. -/
def char? (s : State) : Option Char := s.byte?.map byteChar

/-- The byte behind the next one, as a character. -/
def second? (s : State) : Option Char := s.bytes[s.offset + 1]?.map byteChar

/-- The cursor moved over one byte, if there is one. -/
def advanced (s : State) : State :=
  match s.byte? with
  | none => s
  | some b => { s with offset := s.offset + 1, position := nextByte s.position b }

/-- The text from `start` to the cursor. -/
def textFrom (s : State) (start : Nat) : String :=
  (String.fromUTF8? ⟨((s.bytes.take s.offset).drop start).toArray⟩).getD ""

def reported (s : State) (cause : LexFault) (span : Span) : State :=
  { s with found := s.found.push (.inFile s.file cause.code cause.message span) }

end State

/-- Work on a state, which has no result if a loop needs too many turns. -/
abbrev Act := StateT State Option

/-- No more turns. -/
def exhausted {α : Type} : Act α := fun _ => none

def peek : Act (Option Char) := return (← get).char?

def advance : Act Unit := modify State.advanced

def textFrom (start : Nat) : Act String := return (← get).textFrom start

/-- The span from a position to the byte before the cursor. -/
def spanFrom (p : Position) : Act Span := return .between p (← get).position

def report (cause : LexFault) (span : Span) : Act Unit := modify (·.reported cause span)

/-- Move over the bytes that satisfy `p`. -/
def skipWhile (p : Char → Bool) : Nat → Act Unit
  | 0 => exhausted
  | turns + 1 => do
    if (← peek).any p then
      advance
      skipWhile p turns

/-- Move over blanks and comments. -/
def skipTrivia : Nat → Act Unit
  | 0 => exhausted
  | turns + 1 => do
    match ← peek with
    | some c =>
      if isSpace c then
        advance
        skipTrivia turns
      else if c = '#' then
        skipWhile (· ≠ '\n') turns
        skipTrivia turns
    | none => return ()

/-- Move over the mark at the end of a name. -/
def skipMark : Act Unit := do
  if (← peek).any fun c => c = '?' || c = '!' then advance

/-- Move to the end of a name that starts at `start`. -/
def name (turns start : Nat) : Act String := do
  skipWhile isWord turns
  skipMark
  textFrom start

/-- A name is a key when one colon follows it. -/
def nameOrKey (turns start : Nat) : Act Kind := do
  let found ← name turns start
  if (← peek) = some ':' ∧ (← get).second? ≠ some ':' then
    advance
    return .key found
  else return .identifier found

/-- An integer whose first digit stands at `start` and `p`. -/
def integer (turns start : Nat) (p : Position) : Act Kind := do
  skipWhile isDigitOrSeparator turns
  let digits := (← textFrom start).toList.filter (· ≠ '_')
  match (Text.readDecimal digits).filter (· ≤ maxInteger) with
  | some value => return .integer value
  | none =>
    report (.integerRange (String.ofList digits)) (← spanFrom p)
    return .integer 0

/-- What a byte behind a backslash stands for. -/
def unescapeByte (b : UInt8) : UInt8 :=
  if byteChar b = 'n' then 10 else if byteChar b = 't' then 9 else b

/-- The bytes of a string literal behind those in `buffer`. The literal starts at `p`. -/
def literal (p : Position) : Nat → List UInt8 → Act (List UInt8)
  | 0, _ => exhausted
  | turns + 1, buffer => do
    match (← get).byte? with
    | none =>
      report .unterminatedString (← spanFrom p)
      return buffer
    | some b =>
      if byteChar b = '\n' then
        report .unterminatedString (← spanFrom p)
        return buffer
      else if byteChar b = '"' then
        advance
        return buffer
      else if byteChar b = '\\' then
        advance
        let escaped := (← get).byte?
        advance
        literal p turns (buffer ++ (escaped.map unescapeByte).toList)
      else
        advance
        literal p turns (buffer ++ [b])

/-- What a colon starts: `::`, a symbol, or nothing. The colon stands at `p`. -/
def colon (turns : Nat) (p : Position) : Act (Option Kind) := do
  match ← peek with
  | some c =>
    if c = ':' then
      advance
      return some .colonColon
    else if startsAtom c then
      let found ← name turns (← get).offset
      return some (.atom found)
    else
      report .loneColon (← spanFrom p)
      return none
  | none =>
    report .loneColon (← spanFrom p)
    return none

/-- What starts with the byte `b`, which stands at `start` and `p` and is behind the cursor. Where
nothing starts, a fault is reported. -/
def kind? (turns start : Nat) (p : Position) (b : UInt8) : Act (Option Kind) := do
  let c := byteChar b
  if c = '\n' then return some .newline
  else if startsIdentifier c then return some (← nameOrKey turns start)
  else if c.isUpper then
    skipWhile isWord turns
    return some (.segment (← textFrom start))
  else if c.isDigit then return some (← integer turns start p)
  else if c = '"' then
    let value ← literal p turns []
    return some (.string (Text.ofByteChars (Text.ofBytes value)))
  else if c = ':' then colon turns p
  else match punctuation? c with
    | some k =>
      modify fun s => { s with depth := k.depthAfter s.depth }
      return some k
    | none =>
      report (.unexpectedByte b) (← spanFrom p)
      return none

/-- The next token. -/
def token? (turns : Nat) : Act (Option Token) := do
  skipTrivia turns
  let first ← get
  match first.byte? with
  | some b =>
    advance
    match ← kind? turns first.offset first.position b with
    | some k => return some ⟨k, ← spanFrom first.position⟩
    | none => return none
  | none =>
    let here := Span.point first.position.line first.position.column
    if 0 < first.depth then
      report .unclosedBracket here
      modify fun s => { s with depth := 0 }
    return some ⟨.eof, here⟩

/-- Whether a line feed behind these tokens ends no declaration. -/
def joinsLines (depth : Nat) (ts : List Token) : Bool :=
  0 < depth || match ts.getLast? with
    | none => true
    | some t => t.kind = .newline || t.kind.continuesLine

/-- The tokens up to the end of the file, behind the tokens `ts`, until the limit of faults is
reached. -/
def tokens : Nat → List Token → Act (List Token)
  | 0, _ => exhausted
  | turns + 1, ts => do
    if (← get).found.isFull then return ts
    else
      match ← token? turns with
      | none => tokens turns ts
      | some t =>
        if t.kind = .newline ∧ joinsLines (← get).depth ts then tokens turns ts
        else if t.kind = .eof then return ts ++ [t]
        else tokens turns (ts ++ [t])

/-- The end of the file behind the tokens, if it is not among them yet. -/
def close (ts : List Token) : Act (List Token) := do
  if ts.getLast?.any (·.kind = .eof) then return ts
  else
    let p := (← get).position
    return ts ++ [⟨.eof, .point p.line p.column⟩]

/-- All tokens of a file, of which the last is its end. -/
def file (turns : Nat) : Act (List Token) := do
  close (← tokens turns [])

end NativeInterface.Lexed.InPlace
