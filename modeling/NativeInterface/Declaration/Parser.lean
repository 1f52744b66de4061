import NativeInterface.Declaration.Expr
import NativeInterface.Token.Lexer

/-!
# Reading declarations

```text
File        = { Declaration Newline }
Declaration = identifier [ Payload ]
Payload     = Expr { "," Expr } [ "," Keywords ] | Keywords
Expr        = Alt [ "::" Expr ]
Alt         = Primary [ "|" Alt ]
Primary     = identifier [ "(" Items ")" ] | Name | atom | integer | string
            | "[" Items "]" | "{" Items "}" | "%" Name "{" [ Keywords ] "}"
Items       = [ Expr { "," Expr } ] [ "," Keywords ] | Keywords
Keywords    = key Expr { "," key Expr }
Name        = segment { "." segment }
```

A payload and a list of items may end in a comma. Expressions nest at most `Parser.maxNesting`
levels deep. A declaration that cannot be read is skipped to the end of its line and counts one
fault.
-/

namespace NativeInterface

/-- What can be wrong with a line of tokens. -/
inductive ParseFault where
  | expectedEnd (got : Token.Kind)
  | endOfDeclaration
  | expectedExpression (got : Token.Kind)
  | expected (wanted got : Token.Kind)
  | expectedIdentifier (got : Token.Kind)
  | expectedName (got : Token.Kind)
  | expectedKey (got : Token.Kind)
  | tooDeep
  deriving DecidableEq, Repr, Inhabited

namespace Parser

/-- The deepest nesting of expressions. -/
def maxNesting : Nat := 64

end Parser

namespace ParseFault

def code : ParseFault → Code
  | tooDeep => Code.nestingTooDeep
  | _ => Code.unexpectedToken

def message : ParseFault → String
  | expectedEnd got => "expected end of declaration, got '" ++ got.text ++ "'"
  | endOfDeclaration => "unexpected end of declaration"
  | expectedExpression got => "expected expression, got '" ++ got.text ++ "'"
  | expected wanted got => "expected '" ++ wanted.text ++ "', got '" ++ got.text ++ "'"
  | expectedIdentifier got => "expected identifier, got '" ++ got.text ++ "'"
  | expectedName got => "expected module-style name, got '" ++ got.text ++ "'"
  | expectedKey got => "expected 'key:', got '" ++ got.text ++ "'"
  | tooDeep => "expression nested deeper than " ++ Text.decimal Parser.maxNesting ++ " levels"

end ParseFault

namespace Parser

/-- A point in a token list. -/
structure Cursor where
  /-- Where the token before this point stands. -/
  before : Span
  ahead : List Token
  deriving DecidableEq, Repr, Inhabited

namespace Cursor

/-- The next token; the end of the file behind the last one. -/
def kind (c : Cursor) : Token.Kind :=
  match c.ahead with
  | t :: _ => t.kind
  | [] => .eof

/-- Where the next token stands. -/
def span (c : Cursor) : Span :=
  match c.ahead with
  | t :: _ => t.span
  | [] => .point 1 1

/-- The points with fewer tokens ahead. -/
abbrev Later (c : Cursor) := { d : Cursor // d.ahead.length < c.ahead.length }

/-- The next token and the point behind it. -/
def next (c : Cursor) : Option (Token × c.Later) :=
  match h : c.ahead with
  | t :: ts => some (t, ⟨⟨t.span, ts⟩, by simp [h]⟩)
  | [] => none

/-- The point behind the next token, if that is the one asked for. -/
def accept (c : Cursor) (k : Token.Kind) : Option c.Later :=
  match c.next with
  | some (t, d) => if t.kind = k then some d else none
  | none => none

end Cursor

/-- A reading that consumed at least one token, or the fault that stopped it. -/
abbrev Result (α : Type) (c : Cursor) := Except (Located ParseFault) (α × c.Later)

/-- A reader of something that starts at the cursor. -/
abbrev Reader (α : Type) := (c : Cursor) → Result α c

/-- A fault at the next token. -/
def Cursor.fault {α : Type} (c : Cursor) (cause : ParseFault) : Except (Located ParseFault) α :=
  .error ⟨cause, c.span⟩

/-- The next token must be the one asked for. -/
def expect (k : Token.Kind) (c : Cursor) : Except (Located ParseFault) c.Later :=
  match c.accept k with
  | some d => .ok d
  | none => c.fault (.expected k c.kind)

/-- `segment { "." segment }` -/
def dottedName (c : Cursor) : Result (List String) c :=
  match c.next with
  | some (⟨.segment part, _⟩, d) =>
    match d.val.next with
    | some (⟨.dot, _⟩, e) =>
      match e.val.kind with
      | .segment _ => do
        let (parts, f) ← dottedName e
        .ok (part :: parts, ⟨f, by have := d.2; have := e.2; have := f.2; omega⟩)
      | _ => .ok ([part], d)
    | _ => .ok ([part], d)
  | _ => c.fault (.expectedName c.kind)
termination_by c.ahead.length
decreasing_by have := d.2; have := e.2; omega

/-- `key Expr { "," key Expr }`, up to `close` or the end of the line. -/
def pairs (expr : Reader Expr) (close : Token.Kind) (c : Cursor) : Result (List (Ident × Expr)) c :=
  match c.next with
  | some (⟨.key name, span⟩, d) => do
    let (value, e) ← expr d
    have he : e.val.ahead.length < c.ahead.length := by have := d.2; have := e.2; omega
    if e.val.kind = close ∨ e.val.kind.endsLine then
      .ok ([(⟨name, span⟩, value)], ⟨e, he⟩)
    else match e.val.accept .comma with
      | some f => do
        let (rest, g) ← pairs expr close f
        .ok ((⟨name, span⟩, value) :: rest, ⟨g, by have := f.2; have := g.2; omega⟩)
      | none => .ok ([(⟨name, span⟩, value)], ⟨e, he⟩)
  | _ => c.fault (.expectedKey c.kind)
termination_by c.ahead.length
decreasing_by have := f.2; omega

/-- Pairs as one expression. -/
def keywords (expr : Reader Expr) (close : Token.Kind) (c : Cursor) : Result Expr c := do
  let (found, d) ← pairs expr close c
  .ok (.keyword found (c.span.merge d.val.before), d)

/-- Items up to and including `close`. -/
def items (expr : Reader Expr) (close : Token.Kind) (c : Cursor) : Result (List Expr) c :=
  match c.accept close with
  | some d => .ok ([], d)
  | none =>
    match c.kind with
    | .key _ => do
      let (e, d) ← keywords expr close c
      let f ← expect close d
      .ok ([e], ⟨f, by have := d.2; have := f.2; omega⟩)
    | _ => do
      let (e, d) ← expr c
      match d.val.accept .comma with
      | some f => do
        let (es, g) ← items expr close f
        .ok (e :: es, ⟨g, by have := d.2; have := f.2; have := g.2; omega⟩)
      | none => do
        let f ← expect close d
        .ok ([e], ⟨f, by have := d.2; have := f.2; omega⟩)
termination_by c.ahead.length
decreasing_by have := d.2; have := f.2; omega

/-- The entries of a map behind its opening brace, up to and including the closing one. -/
def entries (expr : Reader Expr) (c : Cursor) : Result (List (Ident × Expr)) c :=
  match c.accept .rbrace with
  | some d => .ok ([], d)
  | none => do
    let (found, d) ← pairs expr .rbrace c
    let f ← expect .rbrace d
    .ok (found, ⟨f, by have := d.2; have := f.2; omega⟩)

/-- An expression without operators on its outside. -/
def primary (expr : Reader Expr) (c : Cursor) : Result Expr c :=
  match c.next with
  | none => c.fault .endOfDeclaration
  | some (t, d) =>
    match t.kind with
    | .identifier name =>
      match d.val.accept .lparen with
      | some e => do
        let (args, f) ← items expr .rparen e
        .ok (.call ⟨name, t.span⟩ args (t.span.merge f.val.before),
          ⟨f, by have := d.2; have := e.2; have := f.2; omega⟩)
      | none => .ok (.ident name t.span, d)
    | .segment _ => do
      let (parts, e) ← dottedName c
      .ok (.dotted parts (t.span.merge e.val.before), e)
    | .atom name => .ok (.atom name t.span, d)
    | .integer value => .ok (.int value t.span, d)
    | .string value => .ok (.str value t.span, d)
    | .lbracket => do
      let (found, e) ← items expr .rbracket d
      .ok (.list found (t.span.merge e.val.before), ⟨e, by have := d.2; have := e.2; omega⟩)
    | .lbrace => do
      let (found, e) ← items expr .rbrace d
      .ok (.tuple found (t.span.merge e.val.before), ⟨e, by have := d.2; have := e.2; omega⟩)
    | .percent => do
      let (name, e) ← dottedName d
      let f ← expect .lbrace e
      let (found, g) ← entries expr f
      .ok (.map name found (t.span.merge g.val.before),
        ⟨g, by have := d.2; have := e.2; have := f.2; have := g.2; omega⟩)
    | .newline | .eof => c.fault .endOfDeclaration
    | other => c.fault (.expectedExpression other)

/-- Alternatives; `|` groups to the right and does not nest. -/
def alternatives (expr : Reader Expr) (c : Cursor) : Result Expr c := do
  let (lhs, d) ← primary expr c
  match d.val.accept .pipe with
  | some e => do
    let (rhs, f) ← alternatives expr e
    .ok (.alt lhs rhs (lhs.span.merge rhs.span),
      ⟨f, by have := d.2; have := e.2; have := f.2; omega⟩)
  | none => .ok (lhs, d)
termination_by c.ahead.length
decreasing_by have := d.2; have := e.2; omega

/-- An expression with at most so many levels of nesting; `::` groups to the right and binds weaker
than `|`. -/
def expr : Nat → Reader Expr
  | 0, c => c.fault .tooDeep
  | level + 1, c => do
    let (lhs, d) ← alternatives (expr level) c
    match d.val.accept .colonColon with
    | some e => do
      let (rhs, f) ← expr level e
      .ok (.typed lhs rhs (lhs.span.merge rhs.span),
        ⟨f, by have := d.2; have := e.2; have := f.2; omega⟩)
    | none => .ok (lhs, d)

/-- The expressions up to the end of the line, and the point reached. -/
def payload (c : Cursor) :
    Except (Located ParseFault) (List Expr × { d : Cursor // d.ahead.length ≤ c.ahead.length }) :=
  if c.kind.endsLine then .ok ([], ⟨c, Nat.le_refl _⟩)
  else match c.kind with
    | .key _ => do
      let (e, d) ← keywords (expr maxNesting) .newline c
      .ok ([e], ⟨d, Nat.le_of_lt d.2⟩)
    | _ => do
      let (e, d) ← expr maxNesting c
      match d.val.accept .comma with
      | some f => do
        let (es, g) ← payload f
        .ok (e :: es, ⟨g, by have := d.2; have := f.2; have := g.2; omega⟩)
      | none => .ok ([e], ⟨d, Nat.le_of_lt d.2⟩)
termination_by c.ahead.length
decreasing_by have := d.2; have := f.2; omega

/-- A kind word and its payload. -/
def declaration (c : Cursor) : Result Declaration c :=
  match c.next with
  | some (⟨.identifier name, span⟩, d) => do
    let (found, e) ← payload d
    .ok (⟨⟨name, span⟩, found, span.merge e.val.before⟩, ⟨e, by have := d.2; have := e.2; omega⟩)
  | _ => c.fault (.expectedIdentifier c.kind)

/-- A declaration that fills its line. -/
def line (c : Cursor) : Result Declaration c := do
  let (d, e) ← declaration c
  if e.val.kind.endsLine then .ok (d, e) else e.val.fault (.expectedEnd e.val.kind)

/-- The tokens behind the line ends in front. -/
def skipNewlines (ts : List Token) : List Token := ts.dropWhile (·.kind = .newline)

/-- The tokens of the next line. -/
def nextLine : List Token → List Token
  | [] => []
  | t :: ts =>
    if t.kind = .eof then t :: ts else if t.kind = .newline then skipNewlines ts else nextLine ts

theorem length_skipNewlines_le (ts : List Token) : (skipNewlines ts).length ≤ ts.length :=
  (List.dropWhile_sublist _).length_le

theorem length_nextLine_le (ts : List Token) : (nextLine ts).length ≤ ts.length := by
  induction ts with
  | nil => simp [nextLine]
  | cons t ts ih =>
    have := length_skipNewlines_le ts
    simp only [nextLine]
    split
    · simp
    · split <;> simp only [List.length_cons] <;> omega

theorem length_nextLine_lt {t : Token} {ts : List Token} (h : t.kind ≠ .eof) :
    (nextLine (t :: ts)).length < (t :: ts).length := by
  have := length_skipNewlines_le ts
  have := length_nextLine_le ts
  simp only [nextLine, h, if_false, List.length_cons]
  split <;> omega

end Parser

/-- Declarations in file order and the faults found between them. -/
structure Parsed where
  declarations : List Declaration := []
  faults : List (Located ParseFault) := []
  deriving Repr, Inhabited

namespace Parsed

/-- Read the lines ahead, until `budget` of them have failed. -/
def lines (budget : Nat) (ts : List Token) : Parsed :=
  match ts with
  | [] => {}
  | t :: rest =>
    if _h : t.kind = .eof ∨ budget = 0 then {}
    else match Parser.line ⟨.point 1 1, t :: rest⟩ with
      | .ok (d, e) =>
        let tail := lines budget (Parser.skipNewlines e.val.ahead)
        { tail with declarations := d :: tail.declarations }
      | .error fault =>
        let tail := lines (budget - 1) (Parser.nextLine (t :: rest))
        { tail with faults := fault :: tail.faults }
termination_by ts.length
decreasing_by
  · have := Parser.length_skipNewlines_le e.val.ahead
    have := e.2
    simp_all only [List.length_cons]
    omega
  · exact Parser.length_nextLine_lt fun hk => _h (.inl hk)

/-- The declarations of a token list. -/
def ofTokens (ts : List Token) : Parsed := lines Diagnostics.limit (Parser.skipNewlines ts)

/-- The faults of a file as diagnostics. -/
def diagnostics (f : SourceFile) (r : Parsed) : Diagnostics :=
  .ofList (r.faults.map fun x => .inFile f x.cause.code x.cause.message x.span)

end Parsed

end NativeInterface
