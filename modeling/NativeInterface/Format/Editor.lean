import NativeInterface.Format.Editor.Listing
import NativeInterface.Format.Editor.State
import NativeInterface.Text.Bytes

/-!
# The stream editor

The editor reads lines one after another into the pattern space, runs a script on each of them, and
prints what is left there. A second space holds text from one line to the next.
-/

namespace NativeInterface.Format

/-- A script with the ways of the editor. -/
structure Editor where
  script : Script
  isQuiet : Bool := false
  delimiter : Char := '\n'
  /-- The width of the lines that special characters are written out in; zero for no bound. -/
  width : Nat := 70
  deriving DecidableEq, Repr, Inhabited

namespace Editor

/-- How a turn goes on. -/
inductive Flow where
  | go (rest : Script)
  /-- The turn of the line ends, and the pattern space is printed or not. -/
  | finish (prints : Bool)
  /-- A turn with what is left in the pattern space. -/
  | again
  | quit (status : Nat) (prints : Bool)
  deriving DecidableEq, Repr, Inhabited

/-! ### Output -/

def print (e : Editor) (s : State) (space : Space) : State :=
  { s with output := s.output.addSpace e.delimiter space }

def put (e : Editor) (s : State) (text : List Char) : State :=
  { s with output := s.output.add e.delimiter text }

/-- Add the pattern space to a file. -/
def write (e : Editor) (s : State) (path : String) : State :=
  let sink := ((s.files.lookup path).getD {}).addSpace e.delimiter s.space
  { s with files := (path, sink) :: s.files.filter (·.1 ≠ path) }

/-- Put out what is queued. -/
def flush (e : Editor) (s : State) : State :=
  if s.queue.isEmpty then s
  else
    let chunks := s.queue.map fun
      | .lines lines => Space.unlines '\n' lines
      | .file path =>
        match s.tree.readBytes path with
        | .ok bytes => Text.ofBytes bytes
        | .error _ => []
    { e.put s chunks.flatten with queue := [] }

/-! ### Actions -/

/-- Read the next line, if there is one. -/
def read? (e : Editor) (s : State) : Option State :=
  match s.input with
  | [] => none
  | space :: input =>
    some { e.flush s with space, input, line := s.line + 1, isReplaced := false }

/-- Replace matches in the pattern space. -/
def substitute (e : Editor) (s : State) (sub : Substitution) : Except ScriptError State := do
  let (p, s) ← s.recall sub.pattern
  match sub.edited? p s.space.text with
  | none => .ok s
  | some text =>
    let s := { s with space := { s.space with text }, isReplaced := true }
    let s := if sub.prints then e.print s s.space else s
    .ok (match sub.path with
      | some path => e.write s path
      | none => s)

/-- Jump behind a label. -/
def jump (e : Editor) (label : List Char) : Flow := .go ((e.script.behindLabel? label).getD [])

/-- Run an instruction that has the rest of the script behind it. -/
def act (e : Editor) (s : State) (rest : Script) (scope : Scope) :
    Action → Except ScriptError (Flow × State)
  | .nothing | .opening | .closing | .label _ => .ok (.go rest, s)
  | .jump .always label => .ok (e.jump label, s)
  | .jump .replaced label =>
    .ok (if s.isReplaced then e.jump label else .go rest, { s with isReplaced := false })
  | .jump .notReplaced label =>
    .ok (if s.isReplaced then .go rest else e.jump label, { s with isReplaced := false })
  | .substitute sub => do .ok (.go rest, ← e.substitute s sub)
  | .exchangeChars table =>
    let text := s.space.text.map fun c => (table.lookup c).getD c
    .ok (.go rest, { s with space := { s.space with text } })
  | .delete => .ok (.finish false, s)
  | .deleteLine =>
    match Space.firstLine e.delimiter s.space.text with
    | (_, none) => .ok (.finish false, s)
    | (_, some text) => .ok (.again, { s with space := { s.space with text } })
  | .print => .ok (.go rest, e.print s s.space)
  | .printLine =>
    match Space.firstLine e.delimiter s.space.text with
    | (_, none) => .ok (.go rest, e.print s s.space)
    | (line, some _) => .ok (.go rest, e.print s ⟨line, true⟩)
  | .next =>
    match e.read? (if e.isQuiet then s else e.print s s.space) with
    | some s => .ok (.go rest, s)
    | none => .ok (.finish true, s)
  | .nextLine =>
    match e.read? s with
    | some t => .ok (.go rest, { t with space := Space.join e.delimiter s.space t.space })
    | none => .ok (.finish true, s)
  | .hold => .ok (.go rest, { s with hold := s.space })
  | .holdMore => .ok (.go rest, { s with hold := Space.join e.delimiter s.hold s.space })
  | .get => .ok (.go rest, { s with space := s.hold })
  | .getMore => .ok (.go rest, { s with space := Space.join e.delimiter s.space s.hold })
  | .exchange => .ok (.go rest, { s with space := s.hold, hold := s.space })
  | .zap => .ok (.go rest, { s with space := { s.space with text := [] } })
  | .lineNumber => .ok (.go rest, e.put s ((Text.decimal s.line).toList ++ [e.delimiter]))
  | .list width =>
    .ok (.go rest, e.put s (listing e.delimiter (width.getD e.width - 1) 0 s.space.text))
  | .append lines => .ok (.go rest, { s with queue := s.queue ++ [.lines lines] })
  | .insert lines => .ok (.go rest, e.put s (Space.unlines e.delimiter lines))
  | .change lines =>
    let isLast := match scope with
      | .range first _ =>
        match s.progress rest.length first with
        | .active _ => false
        | _ => true
      | _ => true
    .ok (.finish false, if isLast then e.put s (Space.unlines e.delimiter lines) else s)
  | .readFile path => .ok (.go rest, { s with queue := s.queue ++ [.file path] })
  | .writeFile path => .ok (.go rest, e.write s path)
  | .quit status => .ok (.quit status true, s)
  | .stop status => .ok (.quit status false, s)

/-- Run an instruction if its scope includes the current line. -/
def step (e : Editor) (s : State) (i : Instruction) (rest : Script) :
    Except ScriptError (Flow × State) := do
  let (found, s) ← s.isIn rest.length i.scope
  if found != i.isNegated then e.act s rest i.scope i.action
  else if i.action = .opening then .ok (.go (Script.behindBlock 0 rest), s)
  else .ok (.go rest, s)

/-! ### Turns -/

/-- A script can jump back, so what it may do in one turn is bounded. -/
def stepLimit : Nat := 1000000

/-- Run a script up to the end of the turn. -/
def runScript (e : Editor) : Nat → State → Script → Except ScriptError (Flow × State)
  | 0, s, _ => .ok (.finish true, s)
  | _, s, [] => .ok (.finish true, s)
  | fuel + 1, s, i :: rest => do
    match ← e.step s i rest with
    | (.go rest, s) => e.runScript fuel s rest
    | ended => .ok ended

/-- Take the turns of the lines that are left. A script that ends the editor gives its status. -/
def turns (e : Editor) : Nat → State → Except ScriptError (Option Nat × State)
  | 0, s => .ok (none, s)
  | fuel + 1, s => do
    let printed (prints : Bool) (s : State) : State :=
      if prints && !e.isQuiet then e.print s s.space else s
    match ← e.runScript stepLimit s e.script with
    | (.go _, s) => .ok (none, s)
    | (.finish prints, s) =>
      let s := e.flush (printed prints s)
      match e.read? s with
      | some s => e.turns fuel s
      | none => .ok (none, s)
    | (.again, s) => e.turns fuel (e.flush s)
    | (.quit status prints, s) =>
      let s := printed prints s
      let closed := e.flush { s with output := s.output.close e.delimiter }
      .ok (some status, if prints then closed else s)

/-- Edit the lines of a stream. The last pattern and what has been written stay from one stream to
the next. -/
def runStream (e : Editor) (s : State) (input : List Space) :
    Except ScriptError (Option Nat × State) :=
  let hold := { s.hold with text := [] }
  let s := { s with input, hold, line := 0, ranges := [], output := {} }
  match e.read? s with
  | some s => e.turns stepLimit s
  | none => .ok (none, s)

end Editor

end NativeInterface.Format
