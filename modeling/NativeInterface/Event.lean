import NativeInterface.Text.Words

/-!
# Events

What a run reports besides its results. An event is a fact; its level, the part of the program that
reports it and its wording follow from it.
-/

namespace NativeInterface

/-- How much an event matters, from the most to the least. -/
inductive Level where
  | error
  | warn
  | info
  | debug
  | trace
  deriving DecidableEq, Repr, Inhabited

namespace Level

/-- The most important level has the smallest rank. -/
def rank : Level → Nat
  | error => 1
  | warn => 2
  | info => 3
  | debug => 4
  | trace => 5

def text : Level → String
  | error => "ERROR"
  | warn => "WARN"
  | info => "INFO"
  | debug => "DEBUG"
  | trace => "TRACE"

/-- Whether events of this level are shown when everything up to `threshold` is. -/
def shownAt (threshold l : Level) : Bool := l.rank ≤ threshold.rank

end Level

/-- Something that happened. -/
inductive Event where
  | lexed (file : String) (tokens : Nat)
  | parsed (file : String) (declarations : Nat)
  | collected (file : String) (declarations : Nat)
  | moduleRedeclared (spec previous : String)
  | interfaceRedeclared (spec : String)
  | stateTypeRedeclared (spec previous : String)
  | functionAdded (spec name : String) (arity clauses : Nat)
  | structAdded (spec name : String) (members : Nat)
  | enumAdded (spec name : String) (variants : Nat)
  | dirtyOverwritten (spec function : String) (arity : Nat) (previous kind : String)
  | callbackRedeclared (spec hook function previous : String)
  | sendsRedeclared (spec : String)
  | dirtyUndeclared (spec function : String) (arity : Nat)
  | interfaceConfigured (moduleName tag part : String)
  | generating (spec backend : String)
  | configMissing (root : String)
  | configLoaded (path : String) (natives libs : Nat)
  | specsFound (count : Nat) (root : String)
  | wrote (header source : String)
  | removeFailed (path reason : String)
  | formatted (source program : String)
  | formatterFailed (program status : String)
  | formatterMissing (program reason : String)
  | generationFailed (path : String)
  | finished (generated failed : Nat)
  deriving DecidableEq, Repr, Inhabited

namespace Event

/-- The name of the project configuration file. -/
def configFile : String := "bridgespec.toml"

def level : Event → Level
  | generationFailed .. => .error
  | moduleRedeclared .. | interfaceRedeclared .. | stateTypeRedeclared .. | callbackRedeclared ..
  | sendsRedeclared .. | dirtyUndeclared .. | removeFailed .. | formatterFailed ..
  | formatterMissing .. => .warn
  | wrote .. | finished .. => .info
  | lexed .. => .trace
  | _ => .debug

/-- The part of the program that an event is reported under. -/
def target : Event → String
  | lexed .. => "bridgespec_lexer::lexer"
  | parsed .. => "bridgespec_parser::parser"
  | collected .. | generating .. => "bridgespec_compiler"
  | interfaceConfigured .. => "bridgespec_compiler::select"
  | configMissing .. | configLoaded .. => "bridgespec_cli::config"
  | specsFound .. => "bridgespec_cli::discover"
  | wrote .. | removeFailed .. | formatted .. | formatterFailed .. | formatterMissing .. =>
    "bridgespec_cli::emit"
  | generationFailed .. | finished .. => "bridgespec_cli"
  | _ => "bridgespec_compiler::registry"

def message : Event → String
  | lexed file tokens => "lexed '" ++ file ++ "' into " ++ Text.decimal tokens ++ " tokens"
  | parsed file declarations =>
    "collected " ++ Text.decimal declarations ++ " declarations from '" ++ file ++ "'"
  | collected file declarations =>
    file ++ ": " ++ Text.decimal declarations ++ " declaration(s) collected"
  | moduleRedeclared spec previous => spec ++ ": module '" ++ previous ++ "' redeclared"
  | interfaceRedeclared spec => spec ++ ": interface redeclared"
  | stateTypeRedeclared spec previous => spec ++ ": state_type '" ++ previous ++ "' redeclared"
  | functionAdded spec name arity clauses =>
    spec ++ ": function " ++ name ++ "/" ++ Text.decimal arity ++ " with " ++ Text.decimal clauses
      ++ " result clause(s)"
  | structAdded spec name members =>
    spec ++ ": struct " ++ name ++ " (" ++ Text.decimal members ++ " fields)"
  | enumAdded spec name variants =>
    spec ++ ": enum " ++ name ++ " (" ++ Text.decimal variants ++ " variants)"
  | dirtyOverwritten spec function arity previous kind =>
    spec ++ ": dirty " ++ function ++ "/" ++ Text.decimal arity ++ " overwritten (" ++ previous
      ++ " -> " ++ kind ++ ")"
  | callbackRedeclared spec hook function previous =>
    spec ++ ": callback :" ++ hook ++ " redeclared, '" ++ function ++ "' replaces '" ++ previous
      ++ "'"
  | sendsRedeclared spec => spec ++ ": sends redeclared"
  | dirtyUndeclared spec function arity =>
    spec ++ ": dirty entry for undeclared function " ++ function ++ "/" ++ Text.decimal arity
  | interfaceConfigured moduleName tag part =>
    moduleName ++ ": interface '" ++ tag ++ "' taken from " ++ part ++ " configuration"
  | generating spec backend => spec ++ ": generating with backend '" ++ backend ++ "'"
  | configMissing root => "no " ++ configFile ++ " under " ++ root
  | configLoaded path natives libs =>
    "loaded " ++ path ++ ": " ++ Text.decimal natives ++ " native and " ++ Text.decimal libs
      ++ " lib module(s)"
  | specsFound count root => "found " ++ Text.decimal count ++ " spec file(s) under " ++ root
  | wrote header source => "wrote " ++ header ++ " and " ++ source
  | removeFailed path reason => "could not remove " ++ path ++ ": " ++ reason
  | formatted source program => "formatted " ++ source ++ " with " ++ program
  | formatterFailed program status =>
    program ++ " exited with " ++ status ++ "; keeping unformatted output"
  | formatterMissing program reason =>
    "could not run " ++ program ++ ": " ++ reason ++ "; keeping unformatted output"
  | generationFailed path => path ++ ": generation failed"
  | finished generated failed =>
    Text.decimal generated ++ " spec(s) generated, " ++ Text.decimal failed ++ " failed"

/-- The line of a log; further lines of a message are indented. -/
def logLine (e : Event) : String :=
  let level := e.level.text
  let padding := String.ofList (List.replicate (5 - level.length) ' ')
  let body := e.message.toList.flatMap fun c => if c = '\n' then ['\n', ' ', ' ', ' ', ' '] else [c]
  "[" ++ level ++ padding ++ " " ++ e.target ++ "] " ++ String.ofList body ++ "\n"

end Event

end NativeInterface
