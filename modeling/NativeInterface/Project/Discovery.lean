import NativeInterface.Project.Run

/-!
# Finding spec files

Spec files are looked for below a root, in the order of their paths. Hidden directories, those of
generated files and build directories are passed over; the root itself never is.
-/

namespace NativeInterface

/-- The directory for generated files beside each spec. -/
def generatedName : String := "_generated"

/-- A spec file and its text. -/
structure SpecFile where
  /-- The base name, which names the generated files. -/
  name : String
  /-- The directory of the file; its output goes below it. -/
  directory : String
  path : String
  text : String
  deriving DecidableEq, Repr, Inhabited

/-- The file as it is compiled. -/
def SpecFile.source (f : SpecFile) : SourceFile := ⟨f.path, f.text⟩

namespace Discovery

/-- A directory below the root that is looked into. -/
def isOpen (name : String) : Bool :=
  name.toList.head? ≠ some '.' && name ≠ generatedName && name ≠ "target"

/-- A file name that is longer than the suffix and ends in it. -/
def isSpecName (name : String) : Bool :=
  specSuffix.length < name.length && specSuffix.toList.isSuffixOf name.toList

/-- The path of a node below a root, if it is a spec file in directories that are looked into. -/
def specPath? (root : String) (start : Place) (place : Place) (node : Node) : Option String :=
  let below := place.drop start.length
  let path := below.foldl Path.join root
  match node with
  | .directory => none
  | .file _ =>
    if start.isPrefixOf place && below.dropLast.all isOpen
      && ((Path.fileName? path).map isSpecName).getD false
    then some path else none

/-- The paths of the spec files below a root. -/
def specPaths (t : Tree) (root : String) : Except FileError (List String) := do
  let (start, _) ← t.stat root
  let found := t.nodes.filterMap fun (place, node) => specPath? root start place node
  .ok (found.mergeSort Path.le)

end Discovery

namespace Run

/-- Read a spec file. -/
def readSpec (path : String) : Run SpecFile := do
  let text ← readFile path
  pure ⟨specName path, (Path.parent? path).getD "", path, text⟩

/-- All spec files below a root. One that cannot be read ends the run. -/
def discover (root : String) : Run (List SpecFile) := do
  match Discovery.specPaths (← get).tree root with
  | .error e => throw (.walk root e)
  | .ok paths =>
    report [.specsFound paths.length root]
    paths.mapM readSpec

end Run

end NativeInterface
