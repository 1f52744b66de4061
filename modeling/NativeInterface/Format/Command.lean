import NativeInterface.Format.Echo
import NativeInterface.Format.Options
import NativeInterface.Project.Launcher

/-!
# Stand-ins for formatters

A launcher that knows four programs and finds no others (`Format.run`). Each stands for the program
of its name, and is a function of its arguments and of the file tree.
-/

namespace NativeInterface.Format

abbrev Command := List String → Tree → Ended

/-! ### The stream editor -/

/-- A line of the stream editor about an error. -/
def editorLine (text : String) : String := "sed: " ++ text ++ "\n"

def fail (ended : Ended) (e : EditorError) : Ended :=
  { ended with
    status := e.status
    spoken := ended.spoken ++ (e.text?.map editorLine).getD "" }

/-- The lines of files, as far as they can be read. A missing file is passed over with a status of
its own; a directory is given back. -/
def gather (delimiter : Char) (ended : Ended) :
    List String → Ended × List Space × Option String
  | [] => (ended, [], none)
  | path :: rest =>
    match ended.tree.readBytes path with
    | .ok bytes =>
      let (ended, more, directory) := gather delimiter ended rest
      (ended, Space.ofText delimiter (Text.ofBytes bytes) ++ more, directory)
    | .error .isADirectory => (ended, [], some path)
    | .error e =>
      let line := editorLine ("can't read " ++ path ++ ": " ++ e.reason)
      gather delimiter { ended with status := 2, spoken := ended.spoken ++ line } rest

/-- The fault of a script that has been read. -/
def lateFault (o : Options) (error : ScriptError) : EditorError :=
  .script ((o.parts.getLast?.getD default).lateFault error)

/-- Put the output of a stream into its file, or show it. -/
def deliver (ended : Ended) (inPlace : Bool) (paths : List String) (text : List Char) :
    Ended :=
  match inPlace, paths with
  | true, path :: _ =>
    match ended.tree.write path (Text.toBytes text) with
    | .ok tree => { ended with tree }
    | .error _ => ended
  | _, _ => { ended with shown := ended.shown ++ Text.ofByteChars text }

/-- Edit streams one after another, each of which is made of files. -/
def editStreams (o : Options) (e : Editor) (s : Editor.State) (ended : Ended) :
    List (List String) → Ended × Editor.State
  | [] => (ended, s)
  | paths :: rest =>
    match gather e.delimiter ended paths with
    | (ended, input, directory) =>
      match e.runStream { s with tree := ended.tree } input with
      | .error error => (fail ended (lateFault o error), s)
      | .ok (status, s) =>
        let ended :=
          if input.isEmpty then ended else deliver ended o.inPlace paths s.output.text
        match directory, status with
        | some path, _ => (fail ended (if o.inPlace then .directory path else .unreadable path), s)
        | none, some status =>
          ({ ended with status := if ended.status = 0 then status else ended.status }, s)
        | none, none => editStreams o e s ended rest

/-- The paths that do not lead to files. -/
def shownPath : String := "/dev/stdout"

def spokenPath : String := "/dev/stderr"

def isDevice (path : String) : Bool := path = shownPath || path = spokenPath

/-- Empty the files that a script writes. -/
def openFiles (tree : Tree) (paths : List String) : Except EditorError Tree :=
  (paths.filter (!isDevice ·)).foldlM (fun tree path =>
    match tree.write path [] with
    | .ok tree => .ok tree
    | .error e => .error (.file path e)) tree

/-- Put what a script has written where it belongs. -/
def store (ended : Ended) (files : List (String × Sink)) : Ended :=
  files.foldl (fun ended (path, sink) =>
    let text := Text.ofByteChars sink.text
    if path = shownPath then { ended with shown := ended.shown ++ text }
    else if path = spokenPath then { ended with spoken := ended.spoken ++ text }
    else match ended.tree.write path (Text.toBytes sink.text) with
      | .ok tree => { ended with tree }
      | .error _ => ended) ended

/-- The stream editor. -/
def edit : Command := fun args tree =>
  let start : Ended := ⟨0, tree, "", ""⟩
  let prepared : Except EditorError (Options × Editor × Tree) := do
    let o ← Options.read tree args
    let e ← o.editor
    .ok (o, e, ← openFiles tree (Script.written e.script))
  match prepared with
  | .error e => fail start e
  | .ok (o, e, tree) =>
    let streams := if o.inPlace || o.separate then o.operands.map ([·]) else [o.operands]
    let (ended, s) := editStreams o e {} { start with tree } streams
    store ended s.files.reverse

/-! ### Starting a command -/

/-- The command of a name. -/
def command? : String → Option Command
  | "true" => some fun _ tree => ⟨0, tree, "", ""⟩
  | "false" => some fun _ tree => ⟨1, tree, "", ""⟩
  | "echo" => some fun args tree => ⟨0, tree, Echo.output args, ""⟩
  | "sed" => some edit
  | _ => none

/-- Directories outside of a tree. -/
def systemDirectories : List String := ["/", "/bin", "/usr", "/usr/bin", "/etc", "/dev", "/tmp"]

/-- The directories in which commands stand. -/
def commandDirectories : List String := ["/bin/", "/usr/bin/"]

/-- The command at a path outside of a tree. -/
def findOutside (path : String) : Except StartError Command :=
  let found := commandDirectories.findSome? fun directory =>
    if directory.toList.isPrefixOf path.toList then command? (Text.stripFront directory path)
    else none
  match found with
  | some command => .ok command
  | none =>
    .error (.access (if systemDirectories.contains path then .permissionDenied else .notFound))

/-- The command that a program names. No file of a tree can be run. -/
def find (program : String) (tree : Tree) : Except StartError Command :=
  if program.toList.head? = some '/' then findOutside program
  else if program.toList.contains '/' then
    match tree.stat program with
    | .ok _ => .error (.access .permissionDenied)
    | .error e => .error (.access e)
  else if program = "." || program = ".." then .error (.access .permissionDenied)
  else match Tree.checkName program, command? program with
    | .error e, _ => .error (.access e)
    | .ok _, some command => .ok command
    | .ok _, none => .error (.access .notFound)

/-- The launcher of the stand-ins. -/
def run : Launcher := fun program args tree => do
  if (program :: args).any fun arg => arg.toList.contains '\x00' then .error .nulInArgument
  else .ok ((← find program tree) args tree)

end NativeInterface.Format
