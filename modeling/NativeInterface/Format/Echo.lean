import NativeInterface.Format.Escape
import NativeInterface.Text.Bytes

/-!
# Echoes

The arguments of a command as a line. Options in front of them ask for escapes to be replaced and
for the line feed to be left out.
-/

namespace NativeInterface.Format.Echo

open Text (Shorter Rest)

structure Options where
  escapes : Bool := false
  isEnded : Bool := true
  deriving DecidableEq, Repr, Inhabited

/-- The options of one argument, all of whose letters must be known. -/
def letters? (o : Options) : List Char → Option Options
  | [] => some o
  | 'n' :: cs => letters? { o with isEnded := false } cs
  | 'e' :: cs => letters? { o with escapes := true } cs
  | 'E' :: cs => letters? { o with escapes := false } cs
  | _ => none

/-- The options in front of arguments, with what follows them. -/
def options (o : Options) : List String → Options × List String
  | [] => (o, [])
  | arg :: rest =>
    match arg.toList with
    | '-' :: c :: cs =>
      match letters? o (c :: cs) with
      | some o => options o rest
      | none => (o, arg :: rest)
    | _ => (o, arg :: rest)

/-- The character that a letter stands for. -/
def control? : Char → Option Char
  | 'b' => some '\x08'
  | 'e' => some '\x1b'
  | '\\' => some '\\'
  | c => Format.control? c

/-- What an escape behind its backslash stands for; nothing, if the output ends there. -/
def escape (cs : List Char) : Option (List Char) × Rest cs :=
  match cs with
  | [] => (some ['\\'], .all)
  | 'c' :: _ => (none, Shorter.tail.toRest)
  | 'x' :: rest =>
    match digits? 16 2 rest with
    | some (n, r) => (some [byteChar n], r.behind.toRest)
    | none => (some ['\\', 'x'], Shorter.tail.toRest)
  | '0' :: rest =>
    match digits? 8 3 rest with
    | some (n, r) => (some [byteChar n], r.behind.toRest)
    | none => (some ['\x00'], Shorter.tail.toRest)
  | c :: rest =>
    match digits? 8 3 (c :: rest) with
    | some (n, r) => (some [byteChar n], r.toRest)
    | none => (some ((control? c).elim ['\\', c] ([·])), Shorter.tail.toRest)

/-- The text with its escapes replaced, and whether the output goes on behind it. -/
def unescape (cs : List Char) : List Char × Bool :=
  let parts := Text.readAll (fun c cs =>
    if c = '\\' then escape cs else (some [c], .all)) cs
  ((parts.takeWhile Option.isSome).flatMap (·.getD []), parts.all Option.isSome)

/-- What is shown for arguments. -/
def output (args : List String) : String :=
  let (o, words) := options {} args
  let line := Text.join " " words
  if o.escapes then
    let (text, more) := unescape (Text.byteChars line)
    Text.ofByteChars (if more && o.isEnded then text ++ ['\n'] else text)
  else if o.isEnded then line ++ "\n" else line

end NativeInterface.Format.Echo
