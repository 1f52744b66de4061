import NativeInterface.Files.Path
import NativeInterface.Files.Tree

/-!
# Making directories with their parents

The first ancestor that can be made, or is there already, is looked for from the path upwards. Then
the ones below it are made from the top down. What was made before a failure stays.
-/

namespace NativeInterface.Tree

/-- The outcome of making directories: the tree, and why it stopped. -/
structure Made where
  tree : Tree
  error : Option FileError := none
  deriving DecidableEq, Inhabited

/-- Make directories from the first to the last. One that is there already does not count as a
failure. -/
def makeAll (t : Tree) : List String → Made
  | [] => ⟨t, none⟩
  | path :: rest =>
    match t.makeDirectory path with
    | .ok t' => t'.makeAll rest
    | .error e => if t.isDirectory path then t.makeAll rest else ⟨t, some e⟩

/-- Make the first of some paths, each the parent of the one before it; its parents are made only
when they are missing. `below` are the paths that are still to be made, from the top down. -/
def makeFrom (t : Tree) (below : List String) : List String → Made
  | [] => t.makeAll below
  | path :: parents =>
    match t.makeDirectory path with
    | .ok t' => t'.makeAll below
    | .error .notFound => t.makeFrom (path :: below) parents
    | .error e => if t.isDirectory path then t.makeAll below else ⟨t, some e⟩

/-- Make a directory and the parents that it lacks. -/
def makeDirectories (t : Tree) (path : String) : Made := t.makeFrom [] (Path.ancestors path)

end NativeInterface.Tree
