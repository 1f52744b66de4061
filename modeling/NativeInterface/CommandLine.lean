import NativeInterface.Diagnostic.Json
import NativeInterface.Project.Generate
import NativeInterface.Surface.Json

/-!
# The command line

Three commands: generate the artifacts of a project, check one spec file, and show the surface of
one spec file. How much is logged is counted by `-v`, before or behind the command.
-/

namespace NativeInterface

namespace CommandLine

/-- What is to be done. -/
inductive Command where
  | generate (root : String)
  | check (file : String)
  | surface (file : String)
  deriving DecidableEq, Repr, Inhabited

/-- A command and how much is logged. -/
structure Invocation where
  command : Command
  verbosity : Nat
  deriving DecidableEq, Repr, Inhabited

/-- What arguments ask for. -/
inductive Asked where
  | run (invocation : Invocation)
  | help
  | misuse
  deriving DecidableEq, Repr, Inhabited

/-! ### Arguments -/

/-- What one argument is. -/
inductive Argument where
  /-- Counts so many times. -/
  | verbose (count : Nat)
  | help
  /-- Everything behind it is a value. -/
  | escape
  | unknown
  | value (text : String)
  deriving DecidableEq, Repr, Inhabited

/-- A cluster of one-letter flags behind its dash; help is asked for where its letter stands. -/
def shortFlags (count : Nat) : List Char → Argument
  | [] => .verbose count
  | 'v' :: rest => shortFlags (count + 1) rest
  | 'h' :: _ => .help
  | _ => .unknown

def Argument.of (arg : String) : Argument :=
  match arg.toList with
  | ['-'] => .value arg
  | ['-', '-'] => .escape
  | '-' :: '-' :: _ =>
    if arg = "--verbose" then .verbose 1 else if arg = "--help" then .help else .unknown
  | '-' :: flags => shortFlags 0 flags
  | _ => .value arg

/-- The three command words. -/
inductive Word where
  | generate
  | check
  | surface
  deriving DecidableEq, Repr, Inhabited

def Word.ofText? : String → Option Word
  | "generate" => some generate
  | "check" => some check
  | "ir" => some surface
  | _ => none

/-- The command of a word with the value behind it. Only the root of a project may be left out. -/
def Word.command? : Word → Option String → Option Command
  | generate, root => some (.generate (root.getD "."))
  | check, some file => some (.check file)
  | surface, some file => some (.surface file)
  | _, none => none

/-- The end of the arguments. A count behind the command word takes the place of the one before it.
-/
def finish (word : Word) (before behind : Nat) (value : Option String) : Asked :=
  match word.command? value with
  | some command => .run ⟨command, if behind = 0 then before else behind⟩
  | none => .misuse

/-- Values behind an escape. -/
def escapedValues (word : Word) (before behind : Nat) : Option String → List String → Asked
  | value, [] => finish word before behind value
  | none, [arg] => if arg.isEmpty then .misuse else finish word before behind (some arg)
  | _, _ => .misuse

/-- The arguments behind the command word: flags, and at most one value. -/
def behindWord (word : Word) (before behind : Nat) (value : Option String) : List String → Asked
  | [] => finish word before behind value
  | arg :: rest =>
    match Argument.of arg with
    | .verbose n => behindWord word before (behind + n) value rest
    | .help => .help
    | .escape => escapedValues word before behind value rest
    | .unknown => .misuse
    | .value text =>
      if value.isSome || text.isEmpty then .misuse
      else behindWord word before behind (some text) rest

/-- The arguments behind `help`: nothing, or one command word. -/
def helpFor : List String → Asked
  | [] => .help
  | [arg] => if (Word.ofText? arg).isSome || arg = "help" then .help else .misuse
  | _ => .misuse

/-- The arguments up to the command word. -/
def beforeWord (count : Nat) : List String → Asked
  | [] => .misuse
  | arg :: rest =>
    match Argument.of arg with
    | .verbose n => beforeWord (count + n) rest
    | .help => .help
    | .escape | .unknown => .misuse
    | .value text =>
      match Word.ofText? text with
      | some word => behindWord word count 0 none rest
      | none => if text = "help" then helpFor rest else .misuse

/-- What arguments ask for. -/
def parse (args : List String) : Asked := beforeWord 0 args

/-- The least important level that is logged. -/
def threshold : Nat → Level
  | 0 => .warn
  | 1 => .info
  | 2 => .debug
  | _ => .trace

/-! ### Running -/

/-- What a command shows, and whether it succeeded. -/
structure Shown where
  output : String := ""
  errors : String := ""
  success : Bool := true
  deriving DecidableEq, Repr, Inhabited

def generatedLine (g : Generated) : String :=
  g.spec ++ " -> " ++ g.artifacts.source ++ " (" ++ g.backend ++ ")\n"

def failureLine (f : Failure) : String := "error: " ++ f.message ++ "\n"

/-- A failure with its causes. -/
def failureText (f : Failure) : String :=
  failureLine f ++ String.join (f.causes.map fun cause => "  caused by: " ++ cause ++ "\n")

def Command.run (launch : Launcher) : Command → Run Shown
  | generate root => do
    let r ← Run.generate launch root
    pure ⟨String.join (r.generated.map generatedLine), String.join (r.failures.map failureLine),
      r.isSuccess⟩
  | check file => do
    let ds ← Run.check file
    pure { output := ds.toJson.pretty ++ "\n", success := !ds.hasErrors }
  | surface file => do
    let s ← Run.surface file
    pure { output := s.toJson.pretty ++ "\n" }

/-- What a run leaves behind. -/
structure Outcome where
  status : Nat
  output : String := ""
  errors : String := ""
  tree : Tree
  deriving DecidableEq, Inhabited

def usage : String := "usage: bridgespec [-v]... (generate [ROOT] | check FILE | ir FILE)\n"

/-- The lines of events that are shown, with what called programs have said. -/
def logText (verbosity : Nat) (trace : List Sound) : String :=
  String.join (trace.map fun
    | .event e => if (threshold verbosity).shownAt e.level then e.logLine else ""
    | .foreign text => text)

/-- Do what arguments ask for. A formatter is started by the launcher. -/
def run (launch : Launcher) (args : List String) (tree : Tree) : Outcome :=
  match parse args with
  | .help => { status := 0, output := usage, tree }
  | .misuse => { status := 2, errors := usage, tree }
  | .run ⟨command, verbosity⟩ =>
    let (result, w) := (command.run launch).run.run { tree }
    let log := logText verbosity w.trace
    match result with
    | .ok shown =>
      { status := if shown.success then 0 else 1, output := w.shown ++ shown.output,
        errors := log ++ shown.errors, tree := w.tree }
    | .error f => { status := 1, output := w.shown, errors := log ++ failureText f, tree := w.tree }

end CommandLine

end NativeInterface
