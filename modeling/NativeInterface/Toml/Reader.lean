import NativeInterface.Text.Words
import NativeInterface.Toml.Document

/-!
# Reading TOML

A text is read into statements, one on each line. Arrays and tables in one line nest less than
`Toml.nestingLimit` levels deep, and keys have fewer parts than that.
-/

namespace NativeInterface.Toml

/-- The first depth that is refused. -/
def nestingLimit : Nat := 80

/-- A reader of something in front of a text. -/
abbrev Reader := StateT (List Char) Option

namespace Reader

/-- The next character, if there is one. -/
def peek : Reader (Option Char) := do pure (← get).head?

/-- Pass a word if the text starts with it. -/
def accept (word : String) : Reader Bool := do
  let cs ← get
  if word.toList.isPrefixOf cs then
    set (cs.drop word.length)
    pure true
  else pure false

/-- Pass a word, which must be there. -/
def expect (word : String) : Reader Unit := do
  if ← accept word then pure () else failure

/-- The longest run of characters of a class. -/
def run (p : Char → Bool) : Reader (List Char) := do
  let cs ← get
  set (cs.dropWhile p)
  pure (cs.takeWhile p)

/-- Exactly so many characters. -/
def take (n : Nat) : Reader (List Char) := do
  let cs ← get
  if cs.length < n then failure
  else
    set (cs.drop n)
    pure (cs.take n)

/-- Things one behind the other, until there is none. Each must pass something. -/
def many {α : Type} (item : Reader (Option α)) (cs : List Char) : Option (List α × List Char) :=
  match item cs with
  | none => none
  | some (none, rest) => some ([], rest)
  | some (some a, rest) =>
    if rest.length < cs.length then do
      let (as, last) ← many item rest
      some (a :: as, last)
    else none
termination_by cs.length

end Reader

open Reader

/-! ### Blanks and comments -/

/-- A character that may stand in a comment or a string. -/
def isPlain (c : Char) : Bool := c = '\t' || (' ' ≤ c && c ≤ '~') || 0x80 ≤ c.toNat

def isTabOrSpace (c : Char) : Bool := c = ' ' || c = '\t'

def blanks : Reader Unit := do let _ ← run isTabOrSpace

/-- Pass a line break, if there is one. -/
def lineBreak : Reader Bool := do
  if ← accept "\n" then pure true else accept "\x0d\n"

/-- Pass a comment, if there is one. -/
def comment : Reader Bool := do
  if ← accept "#" then
    let _ ← run isPlain
    pure true
  else pure false

/-- Nothing but a comment up to the end of the line. -/
def lineEnd : Reader Unit := do
  blanks
  let _ ← comment
  if (← get).isEmpty || (← lineBreak) then pure () else failure

/-- Blanks, line breaks and comments between the elements of an array. -/
def gap : Reader Unit := do
  let _ ← many do
    blanks
    let commented ← comment
    if ← lineBreak then pure (some ()) else if commented then failure else pure none

/-! ### Strings -/

/-- The character that so many hexadecimal digits number. -/
def numbered (digits : Nat) : Reader (List Char) := do
  let n ← Text.readDigits 16 (← take digits)
  if n.isValidChar then pure [Char.ofNat n] else failure

/-- The character of an escape behind its backslash. -/
def escape : Reader (List Char) := do
  match ← take 1 with
  | ['b'] => pure ['\x08']
  | ['t'] => pure ['\t']
  | ['n'] => pure ['\n']
  | ['f'] => pure ['\x0c']
  | ['r'] => pure ['\r']
  | ['"'] => pure ['"']
  | ['\\'] => pure ['\\']
  | ['u'] => numbered 4
  | ['U'] => numbered 8
  | _ => failure

/-- A string in one line, behind its opening quote. -/
def basicString : Reader String := do
  let pieces ← many do
    let plain ← run fun c => isPlain c && c ≠ '"' && c ≠ '\\'
    if !plain.isEmpty then pure (some plain)
    else if ← accept "\\" then pure (some (← escape))
    else pure none
  expect "\""
  pure (String.ofList pieces.flatten)

/-- A string without escapes in one line, behind its opening quote. -/
def literalString : Reader String := do
  let plain ← run fun c => isPlain c && c ≠ '\''
  expect "'"
  pure (String.ofList plain)

/-- One or two quotes inside a string of several lines; three end it. -/
def innerQuotes (quote : Char) : Reader (Option (List Char)) := do
  let quotes := (← get).takeWhile (· = quote)
  if quotes.isEmpty || 2 < quotes.length then pure none
  else
    let _ ← take quotes.length
    pure (some quotes)

/-- The end of a string of several lines, with up to two more quotes that belong to it. -/
def lastQuotes (quote : Char) : Reader (List Char) := do
  let count := ((← get).takeWhile (· = quote)).length
  let quotes ← take (min count 5)
  if quotes.length < 3 then failure else pure (quotes.drop 3)

/-- A backslash in front of a line break, which is passed with all blanks and line breaks behind it.
-/
def joinLines : Reader Unit := do
  blanks
  if ← lineBreak then
    let _ ← many do
      let run ← run isTabOrSpace
      if (← lineBreak) || !run.isEmpty then pure (some ()) else pure none
  else failure

/-- A string of several lines, behind its opening quotes. -/
def longString : Reader String := do
  let _ ← lineBreak
  let pieces ← many do
    let plain ← run fun c => isPlain c && c ≠ '"' && c ≠ '\\'
    if !plain.isEmpty then pure (some plain)
    else if ← lineBreak then pure (some ['\n'])
    else if ← accept "\\" then (do joinLines; pure (some [])) <|> (do pure (some (← escape)))
    else innerQuotes '"'
  let last ← lastQuotes '"'
  pure (String.ofList (pieces.flatten ++ last))

/-- A string of several lines without escapes, behind its opening quotes. -/
def longLiteral : Reader String := do
  let _ ← lineBreak
  let pieces ← many do
    let plain ← run fun c => isPlain c && c ≠ '\''
    if !plain.isEmpty then pure (some plain)
    else if ← lineBreak then pure (some ['\n'])
    else innerQuotes '\''
  let last ← lastQuotes '\''
  pure (String.ofList (pieces.flatten ++ last))

/-- A string of any kind. -/
def string : Reader String := do
  if ← accept "\"\"\"" then longString
  else if ← accept "\"" then basicString
  else if ← accept "'''" then longLiteral
  else if ← accept "'" then literalString
  else failure

/-! ### Keys -/

/-- A character of a key without quotes. -/
def isKeyChar (c : Char) : Bool := c.isAlphanum || c = '-' || c = '_'

/-- One part of a key. -/
def keyPart : Reader String := do
  if ← accept "\"" then basicString
  else if ← accept "'" then literalString
  else
    let cs ← run isKeyChar
    if cs.isEmpty then failure else pure (String.ofList cs)

/-- One part of a key between blanks. -/
def paddedPart : Reader String := do
  blanks
  let part ← keyPart
  blanks
  pure part

/-- A key: its parts with points between them. -/
def keyPath : Reader KeyPath := do
  let first ← paddedPart
  let more ← many do
    if ← accept "." then pure (some (← paddedPart)) else pure none
  let parts := first :: more
  if nestingLimit ≤ parts.length then failure
  else pure ⟨parts.dropLast, more.getLastD first⟩

/-! ### Numbers -/

/-- Digits of a base, with single underscores between them. -/
def isSpaced (base : Nat) : List Char → Bool
  | [] => false
  | '_' :: _ => false
  | c :: cs =>
    (Text.readDigits base [c]).isSome && match cs with
      | [] => true
      | '_' :: rest => isSpaced base rest
      | rest => isSpaced base rest

/-- The digits of a base in front of a text, without their underscores. -/
def spacedDigits (base : Nat) : Reader (List Char) := do
  let cs ← run fun c => c = '_' || (Text.readDigits base [c]).isSome
  if isSpaced base cs then pure (cs.filter (· ≠ '_')) else failure

/-- A sign, if there is one. -/
def sign : Reader (List Char) := do
  if ← accept "-" then pure ['-']
  else if ← accept "+" then pure ['+']
  else pure []

/-- A whole number without leading zeros. -/
def wholeDigits : Reader (List Char) := do
  if ← accept "0" then pure ['0'] else spacedDigits 10

/-- A whole number that fits into 64 bits. -/
def inRange (n : Int) : Reader Toml :=
  if -0x8000000000000000 ≤ n ∧ n < 0x8000000000000000 then pure (.int n) else failure

/-- An integer in another base, behind its mark. -/
def basedInteger (base : Nat) : Reader Toml := do
  inRange (← Text.readDigits base (← spacedDigits base))

def integer : Reader Toml := do
  if ← accept "0x" then basedInteger 16
  else if ← accept "0o" then basedInteger 8
  else if ← accept "0b" then basedInteger 2
  else
    let mark ← sign
    let n ← Text.readDigits 10 (← wholeDigits)
    inRange (if mark = ['-'] then -n else n)

/-- Whether a decimal number is too large for a double: `digits` with the point moved `scale` places
to the right, where it is to be rounded to the nearest double. -/
def overflows (digits : Nat) (scale : Int) : Bool :=
  let bound := Nat.pow 2 1024 - Nat.pow 2 970
  let places := (Nat.toDigits 10 digits).length
  if digits = 0 then false
  else if 310 < places + scale then true
  else if places + scale < 308 then false
  else match scale with
    | .ofNat up => bound ≤ digits * Nat.pow 10 up
    | .negSucc down => bound * Nat.pow 10 (down + 1) ≤ digits

/-- The exponent of a float, if there is one. -/
def exponent : Reader (Option Int) := do
  if (← accept "e") || (← accept "E") then
    let mark ← sign
    let n ← Text.readDigits 10 (← spacedDigits 10)
    pure (some (if mark = ['-'] then -(n : Int) else n))
  else pure none

/-- A float that is not written as a word. A positive one must not be too large. -/
def decimalFloat : Reader Toml := do
  let start ← get
  let mark ← sign
  let whole ← wholeDigits
  let places ← if ← accept "." then pure (some (← spacedDigits 10)) else pure none
  let scale ← exponent
  if places.isNone && scale.isNone then failure
  else
    let places := places.getD []
    let n ← Text.readDigits 10 (whole ++ places)
    if mark ≠ ['-'] ∧ overflows n (scale.getD 0 - places.length) then failure
    else pure (.real (String.ofList (start.take (start.length - (← get).length))))

/-- Infinity, or no number. -/
def specialFloat : Reader Toml := do
  let mark ← sign
  if ← accept "inf" then pure (.real (String.ofList (mark ++ ['i', 'n', 'f'])))
  else if ← accept "nan" then pure (.real (String.ofList (mark ++ ['n', 'a', 'n'])))
  else failure

/-! ### Dates -/

/-- A number of exactly so many digits, within bounds. -/
def digitsWithin (count low high : Nat) : Reader Nat := do
  let n ← Text.readDecimal (← take count)
  if low ≤ n ∧ n ≤ high then pure n else failure

def isLeapYear (year : Nat) : Bool := year % 4 == 0 && (year % 100 != 0 || year % 400 == 0)

def daysIn (year month : Nat) : Nat :=
  if month = 2 then (if isLeapYear year then 29 else 28)
  else if [4, 6, 9, 11].contains month then 30
  else 31

def fullDate : Reader Unit := do
  let year ← digitsWithin 4 0 9999
  expect "-"
  let month ← digitsWithin 2 1 12
  expect "-"
  let _ ← digitsWithin 2 1 (daysIn year month)

/-- A time of day; the second may be a leap second. -/
def timeOfDay : Reader Unit := do
  let _ ← digitsWithin 2 0 23
  expect ":"
  let _ ← digitsWithin 2 0 59
  expect ":"
  let _ ← digitsWithin 2 0 60
  if ← accept "." then
    if (← run Char.isDigit).isEmpty then failure

/-- The distance of a time to universal time, if there is one. -/
def offset : Reader Unit := do
  if (← accept "Z") || (← accept "z") then pure ()
  else if !(← sign).isEmpty then
    let _ ← digitsWithin 2 0 23
    expect ":"
    let _ ← digitsWithin 2 0 59

/-- The time behind a date. -/
def timePart : Reader Unit := do
  if (← accept "T") || (← accept "t") || (← accept " ") then
    timeOfDay
    offset
  else failure

def dateTime : Reader Toml := do
  let start ← get
  (do fullDate; timePart <|> pure ()) <|> timeOfDay
  pure (.date (String.ofList (start.take (start.length - (← get).length))))

/-! ### Values -/

/-- A value that holds no other values. -/
def scalar : Reader Toml := do
  match ← peek with
  | some '"' | some '\'' => pure (.str (← string))
  | some 't' => expect "true"; pure (.bool true)
  | some 'f' => expect "false"; pure (.bool false)
  | _ => dateTime <|> decimalFloat <|> specialFloat <|> integer

/-- The elements of an array behind its bracket. A comma may follow the last one. -/
def elements (value : Reader Toml) : Reader (List Toml) := do
  let items ← many do
    gap
    if (← peek) = some ']' then pure none
    else
      let item ← value
      gap
      if (← accept ",") || (← peek) = some ']' then pure (some item) else failure
  expect "]"
  pure items

/-- A key and its value. -/
def pair (value : Reader Toml) : Reader (KeyPath × Toml) := do
  let key ← keyPath
  expect "="
  blanks
  pure (key, ← value)

/-- The pairs of a table in one line behind its brace. No comma follows the last one. -/
def pairs (value : Reader Toml) : Reader (List (KeyPath × Toml)) := do
  blanks
  if ← accept "\x7d" then pure []
  else
    let first ← pair value
    blanks
    let more ← many do
      if ← accept "," then
        let next ← pair value
        blanks
        pure (some next)
      else pure none
    expect "\x7d"
    pure (first :: more)

/-- A value with at most so many levels of arrays and tables in it. -/
def value : Nat → Reader Toml
  | 0 => scalar
  | level + 1 => do
    if ← accept "[" then pure (.arr (← elements (value level)))
    else if ← accept "\x7b" then ofPairs? (← pairs (value level))
    else scalar

/-! ### Documents -/

/-- A statement, or nothing at the end of the text. Empty lines are passed. -/
def statement : Reader (Option (Option Statement)) := do
  blanks
  if (← get).isEmpty then pure none
  else if ← lineBreak then pure (some none)
  else if (← peek) = some '#' then lineEnd; pure (some none)
  else
    let s ←
      if ← accept "[[" then do
        let key ← keyPath
        expect "]]"
        pure (Statement.element key)
      else if ← accept "[" then do
        let key ← keyPath
        expect "]"
        pure (Statement.header key)
      else do
        let (key, v) ← pair (value (nestingLimit - 1))
        pure (Statement.entry key v)
    lineEnd
    pure (some (some s))

/-- The table that a text describes. A byte order mark in front is passed. -/
def read? (text : String) : Option Toml := do
  let cs := match text.toList with
    | '\ufeff' :: rest => rest
    | cs => cs
  let (statements, _) ← many statement cs
  Document.ofStatements? (statements.filterMap id)

end NativeInterface.Toml
