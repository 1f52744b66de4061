import NativeInterface.Format.Editor
import NativeInterface.Format.Script.Reader

/-!
# The arguments of the stream editor

Options may stand anywhere among the operands, one-letter options may share a dash, and a long name
may be cut short as long as it stays the only one that begins so.
-/

namespace NativeInterface.Format

namespace Options

/-- What an option says. -/
inductive Kind where
  | quiet
  | extended
  | inPlace
  | separate
  | nullData
  | expression
  | file
  | width
  /-- Makes no difference to what is written. -/
  | neutral
  /-- Asks for information only. -/
  | help
  deriving DecidableEq, Repr, Inhabited

/-- Whether an option takes a value. -/
inductive Value where
  | never
  | always
  /-- Only one that is attached to it. -/
  | attached
  deriving DecidableEq, Repr, Inhabited

def Kind.value : Kind → Value
  | expression | file | width => .always
  | inPlace => .attached
  | _ => .never

def ofLetter? : Char → Option Kind
  | 'n' => some .quiet
  | 'E' | 'r' => some .extended
  | 'i' => some .inPlace
  | 's' => some .separate
  | 'z' => some .nullData
  | 'e' => some .expression
  | 'f' => some .file
  | 'l' => some .width
  | 'b' | 'u' => some .neutral
  | _ => none

def names : List (String × Kind) :=
  [("binary", .neutral), ("expression", .expression), ("file", .file),
    ("follow-symlinks", .neutral), ("help", .help), ("in-place", .inPlace),
    ("line-length", .width), ("null-data", .nullData), ("posix", .neutral), ("quiet", .quiet),
    ("regexp-extended", .extended), ("separate", .separate), ("silent", .quiet),
    ("unbuffered", .neutral), ("version", .help), ("zero-terminated", .nullData)]

/-- The option of a name, or of the only name that begins so. -/
def ofName? (name : List Char) : Option Kind :=
  match names.find? fun (n, _) => n.toList = name with
  | some (_, kind) => some kind
  | none =>
    match names.filter fun (n, _) => name.isPrefixOf n.toList with
    | [(_, kind)] => some kind
    | _ => none

/-- An argument that has been understood. -/
inductive Item where
  | option (kind : Kind) (value : Option String)
  | operand (text : String)
  /-- No option is like this. -/
  | unknown
  deriving DecidableEq, Repr, Inhabited

/-- The options that share a dash. The last one may take the rest as its value, or else the next
argument, in which case it is given alone. -/
def cluster : List Char → List Item × Option Kind
  | [] => ([], none)
  | c :: cs =>
    match ofLetter? c with
    | none => ([.unknown], none)
    | some kind =>
      match kind.value, cs with
      | .always, [] => ([], some kind)
      | .always, cs => ([.option kind (some (String.ofList cs))], none)
      | .attached, _ => ([.option kind none], none)
      | .never, cs =>
        let (items, pending) := cluster cs
        (.option kind none :: items, pending)

/-- An option with a name, as `cluster` gives it. -/
def long (text : List Char) : List Item × Option Kind :=
  let name := text.takeWhile (· ≠ '=')
  let value := (text.drop name.length).tail?
  match ofName? name with
  | none => ([.unknown], none)
  | some kind =>
    match kind.value, value with
    | .always, none => ([], some kind)
    | .never, some _ => ([.unknown], none)
    | _, value => ([.option kind (value.map String.ofList)], none)

/-- What arguments say. An option may wait for its value. -/
def items : Option Kind → List String → List Item
  | none, [] => []
  | some _, [] => [.unknown]
  | some kind, arg :: rest => .option kind (some arg) :: items none rest
  | none, arg :: rest =>
    match arg.toList with
    | ['-', '-'] => rest.map .operand
    | '-' :: '-' :: name =>
      let (front, pending) := long name
      front ++ items pending rest
    | '-' :: c :: cs =>
      let (front, pending) := cluster (c :: cs)
      front ++ items pending rest
    | _ => .operand arg :: items none rest

end Options

/-- Why the stream editor ends without having edited everything. -/
inductive EditorError where
  /-- The arguments ask for information only. -/
  | help
  | misuse
  /-- A file of the script, or one that it writes, cannot be opened. -/
  | file (path : String) (error : FileError)
  | script (fault : Script.Fault)
  | label (name : List Char)
  /-- A directory is to be edited. -/
  | directory (path : String)
  /-- A directory is to be read. -/
  | unreadable (path : String)
  deriving DecidableEq, Repr, Inhabited

namespace EditorError

def status : EditorError → Nat
  | help => 0
  | misuse => 1
  | script ⟨_, _, .regex .bareClass⟩ => 4
  | script _ => 1
  | file _ _ | label _ | directory _ | unreadable _ => 4

/-- What is said about it. The texts on how the editor is used are not given. -/
def text? : EditorError → Option String
  | help | misuse => none
  | file path error => some ("couldn't open file " ++ path ++ ": " ++ error.reason)
  | script fault =>
    some (if fault.error = .regex .bareClass then fault.error.text else fault.text)
  | label name => some ("can't find label for jump to `" ++ Text.ofByteChars name ++ "'")
  | directory path => some ("couldn't edit " ++ path ++ ": not a regular file")
  | unreadable path => some ("read error on " ++ path ++ ": " ++ FileError.isADirectory.reason)

end EditorError

/-- What the stream editor is asked for. -/
structure Options where
  isQuiet : Bool := false
  extended : Bool := false
  inPlace : Bool := false
  separate : Bool := false
  delimiter : Char := '\n'
  width : Nat := 70
  /-- How many texts of the script have been given as arguments. -/
  expressions : Nat := 0
  parts : List Script.Part := []
  operands : List String := []
  deriving DecidableEq, Repr, Inhabited

namespace Options

/-- Add an argument to the script. -/
def addExpression (o : Options) (text : String) : Options :=
  let number := o.expressions + 1
  { o with
    expressions := number
    parts := o.parts ++ [⟨.expression number, o.extended, Text.byteChars text⟩] }

/-- Add the text of a file to the script. -/
def addFile (o : Options) (tree : Tree) (path : String) : Except EditorError Options :=
  match tree.readBytes path with
  | .ok bytes => .ok { o with parts := o.parts ++ [⟨.file path, o.extended, Text.ofBytes bytes⟩] }
  | .error .isADirectory => .ok { o with parts := o.parts ++ [⟨.file path, o.extended, []⟩] }
  | .error e => .error (.file path e)

def add (tree : Tree) (o : Options) : Item → Except EditorError Options
  | .unknown => .error .misuse
  | .operand text => .ok { o with operands := o.operands ++ [text] }
  | .option kind value =>
    match kind with
    | .quiet => .ok { o with isQuiet := true }
    | .extended => .ok { o with extended := true }
    | .inPlace => .ok { o with inPlace := true }
    | .separate => .ok { o with separate := true }
    | .nullData => .ok { o with delimiter := '\x00' }
    | .expression => .ok (o.addExpression (value.getD ""))
    | .file => o.addFile tree (value.getD "")
    | .width =>
      let digits := (value.getD "").toList.takeWhile Char.isDigit
      .ok { o with width := (Text.readDecimal digits).getD 0 }
    | .neutral => .ok o
    | .help => .error .help

/-- The first operand is the script, if no option gives one. -/
def withScript (o : Options) : Except EditorError Options :=
  if o.parts.isEmpty then
    match o.operands with
    | [] => .error .misuse
    | script :: operands => .ok { o.addExpression script with operands }
  else .ok o

/-- What arguments ask for. -/
def read (tree : Tree) (args : List String) : Except EditorError Options := do
  (← (items none args).foldlM (add tree) {}).withScript

/-- Whether the script begins with the comment that takes the place of the option. -/
def isHushed (o : Options) : Bool :=
  match o.parts with
  | part :: _ => ['#', 'n'].isPrefixOf part.text
  | [] => false

/-- The editor with the script that is asked for. -/
def editor (o : Options) : Except EditorError Editor :=
  match Script.read o.parts with
  | .error fault => .error (.script fault)
  | .ok script =>
    match Script.missingLabel? script with
    | some name => .error (.label name)
    | none =>
      .ok { script, isQuiet := o.isQuiet || o.isHushed, delimiter := o.delimiter, width := o.width }

end Options

end NativeInterface.Format
