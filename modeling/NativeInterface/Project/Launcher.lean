import NativeInterface.Files.Tree

/-!
# Launchers

The formatter of a project is a program of its own, and a run knows nothing about it. What starts
programs is given to a run from outside.
-/

namespace NativeInterface

/-- How a program ended. -/
structure Ended where
  status : Nat
  tree : Tree
  /-- What it has shown. -/
  shown : String := ""
  /-- What it has said about errors. -/
  spoken : String := ""
  deriving DecidableEq, Inhabited

/-- Why a program cannot be started. -/
inductive StartError where
  | access (error : FileError)
  /-- The program or an argument has the character U+0000 in it. -/
  | nulInArgument
  deriving DecidableEq, Repr, Inhabited

def StartError.text : StartError → String
  | access error => error.text
  | nulInArgument => "nul byte found in provided data"

/-- Run a program with arguments on a file tree. -/
abbrev Launcher := String → List String → Tree → Except StartError Ended

end NativeInterface
