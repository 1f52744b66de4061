import NativeInterface.Diagnostic
import NativeInterface.Token.Lexeme

/-!
# The token list of a source text

Places are given to the lexemes, line feeds become line ends where a declaration can end, and
reading stops at the limit of faults. The list always ends with one end-of-file token.
-/

namespace NativeInterface

/-- Tokens and the faults found on the way. -/
structure Lexed where
  tokens : List Token
  faults : List (Located LexFault)
  deriving DecidableEq, Repr, Inhabited

namespace Lexed

/-- What reading depends on besides the lexemes ahead. -/
structure State where
  position : Position := Position.start
  /-- Open brackets. -/
  depth : Nat := 0
  /-- The token before this point. -/
  last : Option Token.Kind := none
  /-- How many more faults are reported. -/
  budget : Nat := Diagnostics.limit
  deriving DecidableEq, Repr, Inhabited

/-- A line feed ends no declaration inside brackets, before the first token, behind another line end
and behind a token that continues the line. -/
def State.joinsLines (s : State) : Bool :=
  0 < s.depth || match s.last with
    | none => true
    | some k => k = .newline || k.continuesLine

/-- One more token in front. -/
def cons (t : Token) (r : Lexed) : Lexed := { r with tokens := t :: r.tokens }

/-- More faults in front. -/
def report (faults : List (Located LexFault)) (r : Lexed) : Lexed :=
  { r with faults := faults ++ r.faults }

/-- The end of the file at a position. -/
def atEnd (p : Position) : Lexed := ⟨[⟨.eof, .point p.line p.column⟩], []⟩

/-- A fault for each byte of a character, column by column. -/
def strayFaults (p : Position) (c : Char) : List (Located LexFault) :=
  (String.utf8EncodeChar c).mapIdx fun i byte =>
    ⟨.unexpectedByte byte, .point p.line (p.column + i)⟩

/-- The tokens of the lexemes ahead. -/
def layout : List Lexeme → State → Lexed
  | [], s =>
    if s.budget = 0 ∨ s.depth = 0 then atEnd s.position
    else report [⟨.unclosedBracket, .point s.position.line s.position.column⟩] (atEnd s.position)
  | l :: ls, s =>
    if s.budget = 0 then atEnd s.position
    else
      let stop := s.position.after l.text
      let span := Span.between s.position stop
      match l.reading with
      | .blank => layout ls { s with position := stop }
      | .lineFeed =>
        if s.joinsLines then layout ls { s with position := stop }
        else cons ⟨.newline, span⟩ (layout ls { s with position := stop, last := some .newline })
      | .token kind fault =>
        let found := fault.toList.map fun cause => ⟨cause, span⟩
        report found (cons ⟨kind, span⟩ (layout ls
          { position := stop, depth := kind.depthAfter s.depth, last := some kind,
            budget := s.budget - found.length }))
      | .loneColon =>
        report [⟨.loneColon, span⟩] (layout ls { s with position := stop, budget := s.budget - 1 })
      | .stray c =>
        let found := (strayFaults s.position c).take s.budget
        report found (layout ls
          { s with position := ⟨s.position.line, s.position.column + found.length⟩,
                   budget := s.budget - found.length })

end Lexed

/-- The tokens of a text. -/
def lex (text : String) : Lexed := Lexed.layout (Lexeme.all text.toList) {}

/-- The faults of a file as diagnostics. -/
def Lexed.diagnostics (f : SourceFile) (r : Lexed) : Diagnostics :=
  .ofList (r.faults.map fun x => .inFile f x.cause.code x.cause.message x.span)

end NativeInterface
