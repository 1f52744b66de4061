import NativeInterface.Declaration.Parser

/-!
# Reading declarations in place

One cursor is moved over the tokens, and what is found on the way is reported at once. Readers and
loops call each other and themselves as they need to. How deep calls may be nested is a number given
from outside: a run that needs more of them has no result, and a run that would never end has none
for any number. A reader that fails leaves the cursor where it stands. What the cursor and the loops
do is noted. A loop is made of turns, each of which is given what goes round as `again`.
-/

namespace NativeInterface.Parser.InPlace
open Token (Kind)

/-- The loops of a run. -/
inductive Loop where
  /-- From declaration to declaration. -/
  | declarations
  /-- From token to token of a line that is given up. -/
  | skip
  /-- From line end to line end. -/
  | lineEnds
  /-- From segment to segment of a dotted name. -/
  | segments
  | items
  | pairs
  | payload
  deriving DecidableEq, Repr, Inhabited

/-- What is noted. -/
inductive Event where
  /-- The cursor was moved in front of the token with this number. -/
  | moved (place : Nat)
  /-- The loop went round, from the cursor at one place to the cursor at another. -/
  | turned (loop : Loop) (start stop : Nat)
  deriving DecidableEq, Repr, Inhabited

/-- Everything that a run changes, and the tokens that it reads. -/
structure State where
  file : SourceFile
  tokens : List Token
  /-- The number of tokens before the cursor. -/
  position : Nat := 0
  /-- The number of expressions that are being read. -/
  nesting : Nat := 0
  found : Diagnostics := .empty
  events : List Event := []

namespace State

/-- The next token; behind all tokens, the last one. -/
def token? (s : State) : Option Token := s.tokens[s.position]?.or s.tokens.getLast?

def kind (s : State) : Kind := (s.token?.map (·.kind)).getD .eof

def span (s : State) : Span := (s.token?.map (·.span)).getD (.point 1 1)

/-- Where the token before the cursor stands. -/
def spanBefore (s : State) : Span :=
  match s.position with
  | 0 => .point 1 1
  | n + 1 => (s.tokens[n]?.map (·.span)).getD (.point 1 1)

/-- The kind of the token behind the next one. -/
def secondKind (s : State) : Kind := (s.tokens[s.position + 1]?.map (·.kind)).getD .eof

/-- The cursor moved over one token, if there is one. -/
def advanced (s : State) : State :=
  if s.position < s.tokens.length then
    { s with position := s.position + 1, events := s.events ++ [.moved (s.position + 1)] }
  else s

/-- A turn of a loop that started at `start`. -/
def turned (s : State) (loop : Loop) (start : Nat) : State :=
  { s with events := s.events ++ [.turned loop start s.position] }

def reported (s : State) (fault : Located ParseFault) : State :=
  { s with
    found := s.found.push
      (.inFile s.file fault.cause.code fault.cause.message fault.span) }

end State

/-- Work on a state, which has no result if it nests calls too deep. -/
abbrev Act := StateT State Option

/-- Work that may fail. -/
abbrev Attempt := OptionT Act

/-- No more calls. -/
def exhausted {α : Type} : Act α := fun _ => none

def advance : Act Unit := modify State.advanced

def kind : Act Kind := return (← get).kind

def span : Act Span := return (← get).span

/-- Something that reaches from `start` to the token before the cursor. -/
def spanned {α : Type} (start : Span) (make : Span → α) : Attempt α :=
  return make (start.merge (← get).spanBefore)

def place : Act Nat := return (← get).position

def endTurn (loop : Loop) (start : Nat) : Act Unit := modify (·.turned loop start)

def report (fault : Located ParseFault) : Act Unit := modify (·.reported fault)

/-- Move over the next token, if that is the one asked for. -/
def eat (k : Kind) : Act Bool := do
  if (← kind) = k then
    advance
    return true
  else return false

/-- Report a fault at the next token, and fail. -/
def fail {α : Type} (cause : ParseFault) : Attempt α := do
  report ⟨cause, ← span⟩
  failure

def expect (k : Kind) : Attempt Unit := do
  unless ← eat k do
    fail (.expected k (← kind))

/-- Work one level deeper; the level is left again also if the work fails. -/
def nested {α : Type} (work : Attempt α) : Attempt α := OptionT.mk do
  modify fun s => { s with nesting := s.nesting + 1 }
  let found ← work.run
  modify fun s => { s with nesting := s.nesting - 1 }
  return found

/-- Work up to and including `close`. -/
def upTo {α : Type} (close : Kind) (work : Attempt α) : Attempt α := do
  let found ← work
  expect close
  return found

def lineEndsTurn (again : Act Unit) : Act Unit := do
  if (← kind) = .newline then
    let start ← place
    advance
    endTurn .lineEnds start
    again

def skipNewlines : Nat → Act Unit
  | 0 => exhausted
  | calls + 1 => lineEndsTurn (skipNewlines calls)

def skipTurn (skipEnds again : Act Unit) : Act Unit := do
  if (← kind) ≠ .eof then
    let start ← place
    if ← eat .newline then skipEnds
    else
      advance
      endTurn .skip start
      again

/-- Give up the line. -/
def synchronize : Nat → Act Unit
  | 0 => exhausted
  | calls + 1 => skipTurn (skipNewlines calls) (synchronize calls)

def segmentsTurn (parts : List String) (again : List String → Attempt (List String)) :
    Attempt (List String) := do
  let start ← place
  match ← kind with
  | .segment part =>
    advance
    if (← kind) = .dot ∧ (← get).secondKind matches .segment _ then
      advance
      endTurn .segments start
      again (parts ++ [part])
    else return parts ++ [part]
  | other => fail (.expectedName other)

/-- `segment { "." segment }`, behind the segments `parts`. -/
def dottedName : Nat → List String → Attempt (List String)
  | 0, _ => exhausted
  | calls + 1, parts => segmentsTurn parts (dottedName calls)

/-- One more expression; a comma behind it goes round, and keywords are the last one. -/
def itemTurn (loop : Loop) (expr keywords : Attempt Expr) (found : List Expr)
    (again : List Expr → Attempt (List Expr)) : Attempt (List Expr) := do
  let start ← place
  match ← kind with
  | .key _ =>
    let e ← keywords
    return found ++ [e]
  | _ =>
    let e ← expr
    if ← eat .comma then
      endTurn loop start
      again (found ++ [e])
    else return found ++ [e]

def itemsTurn (expr keywords : Attempt Expr) (close : Kind) (found : List Expr)
    (again : List Expr → Attempt (List Expr)) : Attempt (List Expr) := do
  if (← kind) = close then return found else itemTurn .items expr keywords found again

def pairsTurn (expr : Attempt Expr) (close : Kind) (found : List (Ident × Expr))
    (again : List (Ident × Expr) → Attempt (List (Ident × Expr))) :
    Attempt (List (Ident × Expr)) := do
  let start ← place
  match ← kind with
  | .key name =>
    let s ← span
    advance
    let value ← expr
    let found := found ++ [(⟨name, s⟩, value)]
    if (← kind) = close ∨ (← kind).endsLine then return found
    else if ← eat .comma then
      endTurn .pairs start
      again found
    else return found
  | other => fail (.expectedKey other)

mutual

def expr : Nat → Attempt Expr
  | 0 => exhausted
  | calls + 1 => do
    if maxNesting ≤ (← get).nesting then fail .tooDeep else nested (typed calls)

def typed : Nat → Attempt Expr
  | 0 => exhausted
  | calls + 1 => do
    let lhs ← alternatives calls
    if ← eat .colonColon then
      let rhs ← expr calls
      return .typed lhs rhs (lhs.span.merge rhs.span)
    else return lhs

def alternatives : Nat → Attempt Expr
  | 0 => exhausted
  | calls + 1 => do
    let lhs ← primary calls
    if ← eat .pipe then
      let rhs ← alternatives calls
      return .alt lhs rhs (lhs.span.merge rhs.span)
    else return lhs

def primary : Nat → Attempt Expr
  | 0 => exhausted
  | calls + 1 => do
    let start ← span
    match ← kind with
    | .identifier name =>
      advance
      if ← eat .lparen then
        let args ← upTo .rparen (items calls .rparen [])
        spanned start (.call ⟨name, start⟩ args)
      else spanned start (.ident name)
    | .segment _ =>
      let parts ← dottedName calls []
      spanned start (.dotted parts)
    | .atom name =>
      advance
      spanned start (.atom name)
    | .integer value =>
      advance
      spanned start (.int value)
    | .string value =>
      advance
      spanned start (.str value)
    | .lbracket =>
      advance
      let found ← upTo .rbracket (items calls .rbracket [])
      spanned start (.list found)
    | .lbrace =>
      advance
      let found ← upTo .rbrace (items calls .rbrace [])
      spanned start (.tuple found)
    | .percent =>
      advance
      let name ← dottedName calls []
      expect .lbrace
      let found ← upTo .rbrace (entries calls)
      spanned start (.map name found)
    | .newline | .eof => fail .endOfDeclaration
    | other => fail (.expectedExpression other)

/-- The items up to and not including `close`, behind the items `found`. -/
def items : Nat → Kind → List Expr → Attempt (List Expr)
  | 0, _, _ => exhausted
  | calls + 1, close, found =>
    itemsTurn (expr calls) (keywords calls close) close found (items calls close)

def keywords : Nat → Kind → Attempt Expr
  | 0, _ => exhausted
  | calls + 1, close => do
    let start ← span
    let found ← pairs calls close []
    spanned start (.keyword found)

/-- The pairs up to and not including `close` or the end of the line, behind the pairs `found`. -/
def pairs : Nat → Kind → List (Ident × Expr) → Attempt (List (Ident × Expr))
  | 0, _, _ => exhausted
  | calls + 1, close, found => pairsTurn (expr calls) close found (pairs calls close)

/-- The entries of a map up to and not including its closing brace. -/
def entries : Nat → Attempt (List (Ident × Expr))
  | 0 => exhausted
  | calls + 1 => do
    if (← kind) = .rbrace then return [] else pairs calls .rbrace []

end

def payloadTurn (expr keywords : Attempt Expr) (found : List Expr)
    (again : List Expr → Attempt (List Expr)) : Attempt (List Expr) := do
  if (← kind).endsLine then return found else itemTurn .payload expr keywords found again

/-- The expressions up to the end of the line, behind the expressions `found`. -/
def payload : Nat → List Expr → Attempt (List Expr)
  | 0, _ => exhausted
  | calls + 1, found => payloadTurn (expr calls) (keywords calls .newline) found (payload calls)

def declaration (calls : Nat) : Attempt Declaration := do
  let start ← span
  match ← kind with
  | .identifier name =>
    advance
    let found ← payload calls []
    spanned start (⟨⟨name, start⟩, found, ·⟩)
  | other => fail (.expectedIdentifier other)

/-- The declaration of a line, if it can be read, and everything up to the next line. -/
def line (calls : Nat) : Act (List Declaration) := do
  match ← (declaration calls).run with
  | some d =>
    if (← kind).endsLine then
      skipNewlines calls
      return [d]
    else
      report ⟨.expectedEnd (← kind), ← span⟩
      synchronize calls
      return []
  | none =>
    synchronize calls
    return []

def declarationsTurn (line : Act (List Declaration)) (ds : List Declaration)
    (again : List Declaration → Act (List Declaration)) : Act (List Declaration) := do
  if (← kind) = .eof ∨ (← get).found.isFull then return ds
  else
    let start ← place
    let found ← line
    endTurn .declarations start
    again (ds ++ found)

/-- The declarations up to the end of the file, behind the declarations `ds`, until the limit of
faults is reached. -/
def declarations : Nat → List Declaration → Act (List Declaration)
  | 0, _ => exhausted
  | calls + 1, ds => declarationsTurn (line calls) ds (declarations calls)

/-- All declarations of a token list. -/
def file (calls : Nat) : Act (List Declaration) := do
  skipNewlines calls
  declarations calls []

end NativeInterface.Parser.InPlace
