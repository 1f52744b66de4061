import NativeInterface.Text.Words

/-!
# File trees

A finite tree of files and directories. An operation fails only because a path is missing, leads to
the wrong kind of thing or cannot be a path at all, and a failed operation changes nothing. Paths
are followed from the root of the tree.
-/

namespace NativeInterface

/-- Why a file cannot be accessed. -/
inductive FileError where
  | notFound
  | permissionDenied
  | alreadyExists
  | notADirectory
  | isADirectory
  /-- A name, or the path as a whole, has too many bytes. -/
  | nameTooLong
  /-- The path has the character U+0000 in it. -/
  | nulInName
  /-- The contents are not UTF-8. -/
  | invalidData
  deriving DecidableEq, Repr, Inhabited

namespace FileError

/-- The reason in words. -/
def reason : FileError → String
  | notFound => "No such file or directory"
  | permissionDenied => "Permission denied"
  | alreadyExists => "File exists"
  | notADirectory => "Not a directory"
  | isADirectory => "Is a directory"
  | nameTooLong => "File name too long"
  | nulInName => "file name contained an unexpected NUL byte"
  | invalidData => "stream did not contain valid UTF-8"

/-- The number of a reason that the file system gives. -/
def number? : FileError → Option Nat
  | notFound => some 2
  | permissionDenied => some 13
  | alreadyExists => some 17
  | notADirectory => some 20
  | isADirectory => some 21
  | nameTooLong => some 36
  | nulInName | invalidData => none

def text (e : FileError) : String :=
  match e.number? with
  | some n => e.reason ++ " (os error " ++ Text.decimal n ++ ")"
  | none => e.reason

end FileError

/-- What stands at a place. -/
inductive Node where
  | directory
  | file (bytes : List UInt8)
  deriving DecidableEq, Inhabited

/-- The names that lead from the root to a node. -/
abbrev Place := List String

/-- The nodes below the root. -/
structure Tree where
  nodes : List (Place × Node) := []
  deriving DecidableEq, Inhabited

namespace Tree

/-! ### Nodes by place -/

/-- The node at a place; the root is a directory. -/
def get? (t : Tree) (place : Place) : Option Node :=
  if place.isEmpty then some .directory else t.nodes.lookup place

/-- Replace the node at a place, or add one. -/
def putNode (place : Place) (node : Node) : List (Place × Node) → List (Place × Node)
  | [] => [(place, node)]
  | n :: ns => if n.1 = place then (place, node) :: ns else n :: putNode place node ns

def put (t : Tree) (place : Place) (node : Node) : Tree := ⟨putNode place node t.nodes⟩

def erase (t : Tree) (place : Place) : Tree := ⟨t.nodes.filter (·.1 ≠ place)⟩

/-! ### Following paths -/

/-- The names in a path. -/
def segments (path : String) : List String :=
  ((Text.splitOn '/' path.toList).filter fun w => !w.isEmpty).map String.ofList

/-- The most bytes of a name. -/
def nameLimit : Nat := 255

/-- A path has fewer bytes than this. -/
def pathBound : Nat := 4096

/-- A name that something may have. -/
def checkName (name : String) : Except FileError Unit :=
  if nameLimit < name.utf8ByteSize then .error .nameTooLong else .ok ()

/-- A text that can be a path; its names are checked when they are followed. -/
def checkPath (path : String) : Except FileError Unit :=
  if path.toList.contains '\x00' then .error .nulInName
  else if pathBound ≤ path.utf8ByteSize then .error .nameTooLong
  else .ok ()

/-- Follow names from a place, through directories only. -/
def enter (t : Tree) (place : Place) : List String → Except FileError Place
  | [] => .ok place
  | "." :: rest => t.enter place rest
  | ".." :: rest => t.enter place.dropLast rest
  | name :: rest => do
    checkName name
    match t.get? (place ++ [name]) with
    | some .directory => t.enter (place ++ [name]) rest
    | some (.file _) => .error .notADirectory
    | none => .error .notFound

/-- Where a path leads, whether or not something stands there. -/
structure Target where
  place : Place
  /-- The path ends in a slash, `.` or `..`, so it can only lead to a directory. -/
  isDirectory : Bool
  deriving DecidableEq, Repr, Inhabited

/-- Follow a path up to its last name. -/
def locate (t : Tree) (path : String) : Except FileError Target := do
  checkPath path
  match (segments path).reverse with
  | [] => if path.isEmpty then .error .notFound else .ok ⟨[], true⟩
  | last :: front => do
    let place ← t.enter [] front.reverse
    if last = "." then .ok ⟨place, true⟩
    else if last = ".." then .ok ⟨place.dropLast, true⟩
    else
      checkName last
      .ok ⟨place ++ [last], path.toList.getLast? = some '/'⟩

/-- The node that a path leads to, with its place. -/
def stat (t : Tree) (path : String) : Except FileError (Place × Node) := do
  let target ← t.locate path
  match t.get? target.place with
  | none => .error .notFound
  | some .directory => .ok (target.place, .directory)
  | some (.file bytes) =>
    if target.isDirectory then .error .notADirectory else .ok (target.place, .file bytes)

def isFile (t : Tree) (path : String) : Bool :=
  match t.stat path with
  | .ok (_, .file _) => true
  | _ => false

def isDirectory (t : Tree) (path : String) : Bool :=
  match t.stat path with
  | .ok (_, .directory) => true
  | _ => false

/-! ### Operations -/

/-- The text that bytes encode. -/
def textOf? (bytes : List UInt8) : Option String := String.fromUTF8? ⟨bytes.toArray⟩

/-- The bytes that encode a text. -/
def bytesOf (text : String) : List UInt8 := text.toUTF8.data.toList

/-- The contents of a file. -/
def readBytes (t : Tree) (path : String) : Except FileError (List UInt8) := do
  match ← t.stat path with
  | (_, .directory) => .error .isADirectory
  | (_, .file bytes) => .ok bytes

/-- The text of a file. -/
def read (t : Tree) (path : String) : Except FileError String := do
  match textOf? (← t.readBytes path) with
  | some text => .ok text
  | none => .error .invalidData

/-- Make a file, or replace its contents. -/
def write (t : Tree) (path : String) (bytes : List UInt8) : Except FileError Tree := do
  let target ← t.locate path
  match t.get? target.place with
  | some .directory => .error .isADirectory
  | some (.file _) =>
    if target.isDirectory then .error .notADirectory else .ok (t.put target.place (.file bytes))
  | none =>
    if target.isDirectory then .error .isADirectory else .ok (t.put target.place (.file bytes))

/-- Make a directory inside an existing one. -/
def makeDirectory (t : Tree) (path : String) : Except FileError Tree := do
  let target ← t.locate path
  match t.get? target.place with
  | some _ => .error .alreadyExists
  | none => .ok (t.put target.place .directory)

/-- Remove a file. -/
def remove (t : Tree) (path : String) : Except FileError Tree := do
  match ← t.stat path with
  | (_, .directory) => .error .isADirectory
  | (place, .file _) => .ok (t.erase place)

/-- Move a file to a path where no directory stands. -/
def rename (t : Tree) (source target : String) : Except FileError Tree := do
  match ← t.stat source with
  | (_, .directory) => .error .isADirectory
  | (place, .file bytes) =>
    let goal ← t.locate target
    if goal.place = place then .ok t
    else match t.get? goal.place with
      | some .directory => .error .isADirectory
      | _ =>
        if goal.isDirectory then .error .notADirectory
        else .ok ((t.put goal.place (.file bytes)).erase place)

/-! ### Listing -/

/-- The path of a node from the root; that of a directory ends in a slash. -/
def nodePath (place : Place) (node : Node) : String :=
  match node with
  | .directory => Text.join "/" place ++ "/"
  | .file _ => Text.join "/" place

/-- The paths of all nodes below the root in the order of their characters. -/
def paths (t : Tree) : List String :=
  (t.nodes.map fun (place, node) => nodePath place node).mergeSort fun a b => a ≤ b

end Tree

end NativeInterface
