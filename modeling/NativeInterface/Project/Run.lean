import NativeInterface.Diagnostic
import NativeInterface.Event
import NativeInterface.Files.Directories

/-!
# Runs over a project tree

A run reads and changes a tree, reports events, and may fail. What it did before a failure stays
done.
-/

namespace NativeInterface

/-- Why a run, or its work on one file, failed. -/
inductive Failure where
  | access (path : String) (error : FileError)
  /-- The configuration file cannot be read as one. -/
  | config (path : String)
  /-- The directory to search is missing. -/
  | walk (root : String) (error : FileError)
  | compile (path : String) (diagnostics : Diagnostics)
  deriving DecidableEq, Repr, Inhabited

namespace Failure

def message : Failure → String
  | access path _ => "failed to access " ++ path
  | config path => "invalid project configuration " ++ path
  | walk _ _ => "failed to walk spec directory"
  | compile path diagnostics => path ++ ":\n" ++ diagnostics.text

/-- What led to a failure, from the nearest cause on. -/
def causes : Failure → List String
  | access _ error => [error.text]
  | walk root error => ["IO error for operation on " ++ root ++ ": " ++ error.text, error.text]
  | config _ | compile _ _ => []

end Failure

/-- What can be heard of a run. -/
inductive Sound where
  | event (e : Event)
  /-- What a called program says about its errors. -/
  | foreign (text : String)
  deriving DecidableEq, Repr, Inhabited

/-- What a run works on. -/
structure World where
  tree : Tree := {}
  /-- What was heard so far. -/
  trace : List Sound := []
  /-- What called programs have shown. -/
  shown : String := ""
  deriving DecidableEq, Inhabited

/-- What happened so far. -/
def World.events (w : World) : List Event :=
  w.trace.filterMap fun
    | .event e => some e
    | .foreign _ => none

/-- A run that gives a value or fails. -/
abbrev Run := ExceptT Failure (StateM World)

namespace Run

def report (events : List Event) : Run Unit :=
  modify fun w => { w with trace := w.trace ++ events.map .event }

/-- Take in what a called program has shown, and what it has said about its errors. -/
def overhear (shown spoken : String) : Run Unit :=
  modify fun w => { w with
    shown := w.shown ++ shown
    trace := if spoken.isEmpty then w.trace else w.trace ++ [.foreign spoken] }

/-- Read the text of a file. -/
def readFile (path : String) : Run String := do
  match (← get).tree.read path with
  | .ok text => pure text
  | .error e => throw (.access path e)

/-- Change the tree, or fail at a path. -/
def change (path : String) (operation : Tree → Except FileError Tree) : Run Unit := do
  let w ← get
  match operation w.tree with
  | .ok tree => set { w with tree }
  | .error e => throw (.access path e)

def writeFile (path text : String) : Run Unit := change path (·.write path (Tree.bytesOf text))

/-- Make a directory and the parents that it lacks. -/
def makeDirectories (path : String) : Run Unit := do
  let w ← get
  let made := w.tree.makeDirectories path
  set { w with tree := made.tree }
  match made.error with
  | none => pure ()
  | some e => throw (.access path e)

/-- Remove a file that may be missing. Any other hindrance is only reported. -/
def discard (path : String) : Run Unit := do
  let w ← get
  match w.tree.remove path with
  | .ok tree => set { w with tree }
  | .error .notFound => pure ()
  | .error e => report [.removeFailed path e.text]

end Run

end NativeInterface
