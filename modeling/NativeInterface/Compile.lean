import NativeInterface.Declaration.Parser
import NativeInterface.Files.Path
import NativeInterface.Surface.Builder

/-!
# Compiling one spec file

From the text of a file to its surface. A file with faults in its characters is not parsed, a file
with faults in its lines is not built, and building stops at its first fault.
-/

namespace NativeInterface

/-- The declarations of a file, or what is wrong with it. -/
structure ParsedFile where
  declarations : List Declaration
  diagnostics : Diagnostics
  deriving Repr, Inhabited

namespace SourceFile

def parse (f : SourceFile) : ParsedFile :=
  let lexed := lex f.text
  if lexed.faults.isEmpty then
    let parsed := Parsed.ofTokens lexed.tokens
    ⟨parsed.declarations, parsed.diagnostics f⟩
  else ⟨[], lexed.diagnostics f⟩

/-- What parsing reports. -/
def parseEvents (f : SourceFile) : List Event :=
  let lexed := lex f.text
  let done := if lexed.faults.isEmpty then [Event.parsed f.name f.parse.declarations.length] else []
  .lexed f.name lexed.tokens.length :: done

/-- The surface of a file. -/
def compile (f : SourceFile) : Except Diagnostics Surface :=
  let parsed := f.parse
  if parsed.diagnostics.hasErrors then .error parsed.diagnostics
  else match Surface.build (specName f.name) parsed.declarations with
    | .ok s => .ok s
    | .error fault => .error (.single (fault.diagnostic f))

/-- What compiling reports. -/
def compileEvents (f : SourceFile) : List Event :=
  let parsed := f.parse
  if parsed.diagnostics.hasErrors then f.parseEvents
  else f.parseEvents ++ .collected f.name parsed.declarations.length
    :: (Builder.ofName (specName f.name)).buildNotices parsed.declarations

/-- The diagnostics of a file; none when it compiles. -/
def check (f : SourceFile) : Diagnostics :=
  match f.compile with
  | .ok _ => .empty
  | .error ds => ds

end SourceFile

end NativeInterface
