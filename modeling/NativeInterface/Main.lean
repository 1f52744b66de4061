import NativeInterface.CommandLine
import NativeInterface.Format.Command

/-!
# The program

The part of the file system that a command can touch is loaded into a tree, the command is run on
the tree, and what it changed is stored. Links are not followed, and formatters are the stand-ins of
`Format.run`.
-/

namespace NativeInterface.Program

/-- The path that a command works on. -/
def pathOf : CommandLine.Command → String
  | .generate path | .check path | .surface path => path

/-- The place that the names of a path lead to. -/
def placeOf (names : List String) : Place :=
  names.foldl (fun place name =>
    if name = "." then place else if name = ".." then place.dropLast else place ++ [name]) []

/-- A file that a command may read or write, outside the directories of generated files. -/
def isWanted (name : String) : Bool :=
  Discovery.isSpecName name || name == Event.configFile || name == generatedName

/-- Load a directory, a file, or nothing. -/
partial def load (path : String) (place : Place) (generated : Bool) (tree : Tree) : IO Tree := do
  let real := (← IO.currentDir) / path
  match (← real.metadata).type with
  | .file => return tree.put place (.file (← IO.FS.readBinFile real).data.toList)
  | .dir =>
    let mut tree := if place.isEmpty then tree else tree.put place .directory
    for entry in ← real.readDir do
      let name := entry.fileName
      let inside := generated || name == generatedName
      let chosen := match (← entry.path.symlinkMetadata).type with
        | .dir => inside || Discovery.isOpen name
        | .file => inside || isWanted name
        | _ => false
      if chosen then tree ← load (Path.join path name) (place ++ [name]) inside tree
    return tree
  | _ => return tree

/-- Load the directories that a path leads through. -/
def loadParents (path : String) (tree : Tree) : IO Tree := do
  let names := Tree.segments path
  let front := if path.toList.head? = some '/' then "/" else ""
  let mut tree := tree
  for n in List.range names.length do
    let above := names.take n
    let place := placeOf above
    let real := (← IO.currentDir) / (front ++ Text.join "/" above)
    if !place.isEmpty && (← real.isDir) then tree := tree.put place .directory
  return tree

/-- Store the nodes that differ from those of the tree before. -/
def store (base : String) (start : Place) (before after : Tree) : IO Unit := do
  let root := (← IO.currentDir) / base
  let locate (place : Place) :=
    (place.drop start.length).foldl (fun path (name : String) => path / name) root
  for (place, node) in after.nodes do
    if before.get? place ≠ some node then
      match node with
      | .directory => IO.FS.createDirAll (locate place)
      | .file bytes => IO.FS.writeBinFile (locate place) ⟨bytes.toArray⟩
  for (place, _) in before.nodes do
    if (after.get? place).isNone then IO.FS.removeFile (locate place)

/-- Run a command on the files below a path. -/
def runOn (path : String) (args : List String) : IO CommandLine.Outcome := do
  let real := (← IO.currentDir) / path
  let base := if ← real.isDir then path else (Path.parent? path).getD ""
  let start := placeOf (Tree.segments base)
  let parents ← loadParents path {}
  let before ←
    if ← real.isDir then load path start false parents
    else if ← real.pathExists then
      let output := Path.join base generatedName
      let beside ← if ← ((← IO.currentDir) / output).pathExists then
          load output (start ++ [generatedName]) true parents
        else pure parents
      load path (placeOf (Tree.segments path)) false beside
    else pure parents
  let out := CommandLine.run Format.run args before
  store base start before out.tree
  return out

end NativeInterface.Program

open NativeInterface in
/-- Do what the arguments ask for. -/
def main (args : List String) : IO UInt32 := do
  let out ← match CommandLine.parse args with
    | .run i => Program.runOn (Program.pathOf i.command) args
    | _ => pure (CommandLine.run Format.run args {})
  (← IO.getStdout).putStr out.output
  (← IO.getStderr).putStr out.errors
  return out.status.toUInt32
