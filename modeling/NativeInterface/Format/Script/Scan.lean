import NativeInterface.Format.Script.Fault

/-!
# Scanning scripts

The steps that all readers of scripts are made of, and texts up to a delimiter.
-/

namespace NativeInterface.Format.Script

/-- How far reading has come. -/
structure Scan where
  rest : List Char
  /-- What is to be said of the open blocks if they are not closed, the innermost block first. -/
  blocks : List Fault := []
  /-- The last text ends in a backslash, so that it goes on in the next part of the script. -/
  isPending : Bool := false
  deriving DecidableEq, Repr, Inhabited

/-- A reader that may fail. What it has read before a failure is known. -/
abbrev Reading := ExceptT ScriptError (StateM Scan)

namespace Reading

def isBlank (c : Char) : Bool := c = ' ' || c = '\t'

def isSpace (c : Char) : Bool := Pattern.inRanges Regex.spaceRanges c

/-- Read on from here. -/
def goTo (rest : List Char) : Reading Unit := modify fun s => { s with rest }

def peek? : Reading (Option Char) := return (← get).rest.head?

def next? : Reading (Option Char) := do
  let s ← get
  goTo s.rest.tail
  pure s.rest.head?

def takeWhile (p : Char → Bool) : Reading (List Char) := do
  let s ← get
  goTo (s.rest.dropWhile p)
  pure (s.rest.takeWhile p)

def skipWhile (p : Char → Bool) : Reading Unit := do
  let _ ← takeWhile p
  pure ()

/-- The next character that is not blank. -/
def nextInk? : Reading (Option Char) := do
  skipWhile isBlank
  next?

def peekInk? : Reading (Option Char) := do
  skipWhile isBlank
  peek?

/-- A number; without digits it is zero. -/
def number : Reading Nat := do
  let digits ← takeWhile Char.isDigit
  pure ((Text.readDecimal digits).getD 0)

/-- The end of an instruction. -/
def finish : Reading Unit := do
  match ← peekInk? with
  | some '\x7d' | some '#' => pure ()
  | _ =>
    match ← next? with
    | none | some '\n' | some ';' => pure ()
    | some _ => throw .extraCharacters

/-! ### Delimited texts -/

/-- Where in a pattern a character stands. -/
inductive Zone where
  | plain
  /-- Directly behind an opening bracket, or behind that and a caret. -/
  | bracketStart
  | bracket
  /-- In brackets inside of brackets, which a mark closes. -/
  | inner (mark : Char)
  deriving DecidableEq, Repr, Inhabited

/-- A pattern up to its delimiter, with what follows; only what follows, if there is none. A
delimiter between brackets belongs to the pattern, and one behind a backslash stands for itself. -/
def patternUpTo (delimiter : Char) : Zone → List Char → Option (List Char) × List Char
  | _, [] => (none, [])
  | _, '\n' :: rest => (none, '\n' :: rest)
  | .plain, '\\' :: rest =>
    if delimiter = '\\' then (some [], rest)
    else match rest with
      | [] => (none, [])
      | '\n' :: rest => add ['\n'] (patternUpTo delimiter .plain rest)
      | c :: rest =>
        if c = delimiter then add [c] (patternUpTo delimiter .plain rest)
        else if c = 'n' then add ['\n'] (patternUpTo delimiter .plain rest)
        else add ['\\', c] (patternUpTo delimiter .plain rest)
  | .plain, c :: rest =>
    if c = delimiter then (some [], rest)
    else add [c] (patternUpTo delimiter (if c = '[' then .bracketStart else .plain) rest)
  | .bracketStart, '^' :: rest => add ['^'] (patternUpTo delimiter .bracketStart rest)
  | .bracketStart, ']' :: rest => add [']'] (patternUpTo delimiter .bracket rest)
  | .inner mark, c :: d :: rest =>
    if c = mark then
      if d = '\n' then (none, d :: rest)
      else add [c, d] (patternUpTo delimiter (if d = ']' then .bracket else .inner mark) rest)
    else add [c] (patternUpTo delimiter (.inner mark) (d :: rest))
  | .inner mark, c :: rest => add [c] (patternUpTo delimiter (.inner mark) rest)
  | _, ']' :: rest => add [']'] (patternUpTo delimiter .plain rest)
  | _, '[' :: c :: rest =>
    if c = '.' || c = ':' || c = '=' then add ['[', c] (patternUpTo delimiter (.inner c) rest)
    else add ['['] (patternUpTo delimiter .bracket (c :: rest))
  | _, '\\' :: 'n' :: rest => add ['\n'] (patternUpTo delimiter .bracket rest)
  | _, c :: rest => add [c] (patternUpTo delimiter .bracket rest)
where
  add (front : List Char) : Option (List Char) × List Char → Option (List Char) × List Char
    | (text, rest) => (text.map (front ++ ·), rest)

/-- A text up to its delimiter, with what follows; only what follows, if there is none. -/
def textUpTo (delimiter : Char) : List Char → Option (List Char) × List Char
  | [] => (none, [])
  | '\n' :: rest => (none, '\n' :: rest)
  | '\\' :: rest =>
    if delimiter = '\\' then (some [], rest)
    else match rest with
      | [] => (none, [])
      | c :: rest =>
        let (text, tail) := textUpTo delimiter rest
        let isBare := c = delimiter && c ≠ '&'
        (text.map fun text => if isBare || c = '\n' then c :: text else '\\' :: c :: text, tail)
  | c :: rest =>
    if c = delimiter then (some [], rest)
    else
      let (text, tail) := textUpTo delimiter rest
      (text.map (c :: ·), tail)

/-- Read up to a delimiter. -/
def delimited (read : List Char → Option (List Char) × List Char) (open? : ScriptError) :
    Reading (List Char) := do
  let (text, rest) := read (← get).rest
  goTo rest
  match text with
  | some text => pure text
  | none => throw open?

end Reading

end NativeInterface.Format.Script
