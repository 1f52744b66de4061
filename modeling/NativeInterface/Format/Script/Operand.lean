import NativeInterface.Format.Script.Address

/-!
# Reading operands

What follows the letter of an instruction: a label, a path, a text, a substitution or an exchange.
-/

namespace NativeInterface.Format.Script.Reading

/-- A label: it ends in front of a blank, a semicolon or a closing brace. -/
def label : Reading (List Char) := do
  skipWhile isBlank
  takeWhile fun c => !isSpace c && c ≠ ';' && c ≠ '\x7d'

/-- The name of a file: the rest of the line. -/
def path : Reading String := do
  skipWhile isBlank
  let name ← takeWhile (· ≠ '\n')
  if name.isEmpty then throw .missingPath else pure (Text.ofByteChars name)

/-- A line that may be continued behind a backslash, and what follows; nothing does, if the line
ends in a backslash. -/
def continuedLine : List Char → List Char × Option (List Char)
  | [] => ([], some [])
  | '\n' :: rest => ([], some rest)
  | ['\\'] => ([], none)
  | '\\' :: c :: rest =>
    let (line, tail) := continuedLine rest
    ('\\' :: c :: line, tail)
  | c :: rest =>
    let (line, tail) := continuedLine rest
    (c :: line, tail)

/-- The text with its escapes replaced, and without any other backslash. -/
def plainText (cs : List Char) : List Char :=
  Text.readAll (fun c cs => if c = '\\' then readEscape id id cs else (c, .all)) cs

/-- The rest of the line as text. It is taken as it stands if its last backslash lacks a partner. -/
def textLine : Reading (List Char) := do
  let s ← get
  let (line, rest) := continuedLine s.rest
  set { s with rest := rest.getD [], isPending := rest.isNone }
  pure (if rest.isNone then line else plainText line)

/-- Text to be put out: the rest of the line, or what follows a backslash. -/
def text : Reading (List (List Char)) := do
  match ← peekInk? with
  | none => throw .missingText
  | some '\\' =>
    let _ ← next?
    let s ← get
    match s.rest.dropWhile isBlank with
    | [] =>
      set { s with rest := [], isPending := true }
      pure []
    | '\n' :: rest =>
      goTo rest
      return [← textLine]
    | _ => return [← textLine]
  | some _ => return [← textLine]

/-! ### Substitutions and exchanges -/

/-- What a letter behind a backslash says about the case of letters. -/
def casing? : Char → Option Piece
  | 'U' => some (.casing .upper)
  | 'L' => some (.casing .lower)
  | 'E' => some (.casing .keep)
  | 'u' => some (.once .upper)
  | 'l' => some (.once .lower)
  | _ => none

/-- What a character behind a backslash stands for. -/
def escapedPiece (c : Char) : Piece :=
  if c.isDigit then .group (c.toNat - '0'.toNat) else (casing? c).getD (.char c)

/-- The pieces of what is put in the place of a match. -/
def pieces (cs : List Char) : List Piece :=
  Text.readAll (fun c cs =>
    if c = '\\' then readEscape .char escapedPiece cs
    else if c = '&' then (.group 0, .all)
    else (.char c, .all)) cs

/-- The flags of a substitution. -/
structure Flags where
  ignoreCase : Bool := false
  multiline : Bool := false
  isGlobal : Bool := false
  prints : Bool := false
  number : Option Nat := none
  path : Option String := none
  deriving DecidableEq, Repr, Inhabited

/-- Read flags, each of which takes a character. -/
def flags (f : Flags) : Nat → Reading Flags
  | 0 => pure f
  | fuel + 1 => do
    match ← peekInk? with
    | some '\x7d' | some '#' => pure f
    | some c =>
      if c.isDigit then
        let n ← number
        if f.number.isSome then throw .manyNumbers
        else if n = 0 then throw .numberZero
        else flags { f with number := some n } fuel
      else
        let _ ← next?
        match c with
        | 'i' | 'I' => flags { f with ignoreCase := true } fuel
        | 'm' | 'M' => flags { f with multiline := true } fuel
        | 'g' => if f.isGlobal then throw .manyGlobals else flags { f with isGlobal := true } fuel
        | 'p' => if f.prints then throw .manyPrints else flags { f with prints := true } fuel
        | 'w' => return { f with path := some (← path) }
        | '\n' | ';' => pure f
        | _ => throw .unknownFlag
    | none => pure f

def substitution (extended : Bool) : Reading Action := do
  match ← next? with
  | none => throw .openSubstitution
  | some delimiter =>
    let text ← delimited (patternUpTo delimiter .plain) .openSubstitution
    let ps := pieces (← delimited (textUpTo delimiter) .openSubstitution)
    let f ← flags {} ((← get).rest.length + 1)
    let pattern ← pattern extended text f.ignoreCase f.multiline
    if pattern.any fun p => p.regex.groups < Piece.groups ps then
      throw (.badReference (Piece.groups ps))
    else
      return .substitute {
        pattern, pieces := ps, first := f.number.getD 1, isGlobal := f.isGlobal, prints := f.prints,
        path := f.path }

/-- Characters for other ones. Of several for the same character the last one counts. -/
def exchange : Reading Action := do
  match ← next? with
  | none => throw .openExchange
  | some delimiter =>
    let source := plainText (← delimited (textUpTo delimiter) .openExchange)
    let target := plainText (← delimited (textUpTo delimiter) .openExchange)
    if source.length ≠ target.length then throw .unequalLengths
    else
      finish
      return .exchangeChars (source.zip target).reverse

end NativeInterface.Format.Script.Reading
