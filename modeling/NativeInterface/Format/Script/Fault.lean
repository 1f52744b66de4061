import NativeInterface.Format.Regex.Bracket
import NativeInterface.Text.Bytes
import NativeInterface.Text.Words

/-!
# Faults in scripts

A script is given in parts, by arguments and by files. A fault is known by its part and by what has
been read of that part before it.
-/

namespace NativeInterface.Format

/-- Why a text is no script. -/
inductive ScriptError where
  | regex (error : RegexError)
  | manyNegations
  | unexpectedComma
  | relativeFirst
  | lineZero
  | openBlock
  | closedBlock
  | extraCharacters
  | missingText
  | addressedClosing
  | addressedLabel
  | addressedComment
  | missingCommand
  | manyAddresses
  | openAddress
  | openSubstitution
  | openExchange
  | unknownFlag
  | manyPrints
  | manyGlobals
  | manyNumbers
  | numberZero
  | unequalLengths
  | unknownCommand (c : Char)
  | missingLabel
  | missingPath
  | flagsAlone
  | badReference (number : Nat)
  /-- There is no last pattern to look for again. -/
  | noPattern
  deriving DecidableEq, Repr, Inhabited

def ScriptError.text : ScriptError → String
  | regex error => error.text
  | manyNegations => "multiple `!'s"
  | unexpectedComma => "unexpected `,'"
  | relativeFirst => "invalid usage of +N or ~N as first address"
  | lineZero => "invalid usage of line address 0"
  | openBlock => "unmatched `\x7b'"
  | closedBlock => "unexpected `\x7d'"
  | extraCharacters => "extra characters after command"
  | missingText => "expected \\ after `a', `c' or `i'"
  | addressedClosing => "`\x7d' doesn't want any addresses"
  | addressedLabel => ": doesn't want any addresses"
  | addressedComment => "comments don't accept any addresses"
  | missingCommand => "missing command"
  | manyAddresses => "command only uses one address"
  | openAddress => "unterminated address regex"
  | openSubstitution => "unterminated `s' command"
  | openExchange => "unterminated `y' command"
  | unknownFlag => "unknown option to `s'"
  | manyPrints => "multiple `p' options to `s' command"
  | manyGlobals => "multiple `g' options to `s' command"
  | manyNumbers => "multiple number options to `s' command"
  | numberZero => "number option to `s' command may not be zero"
  | unequalLengths => "strings for `y' command are different lengths"
  | unknownCommand c => "unknown command: `" ++ Text.ofByteChars [c] ++ "'"
  | missingLabel => "\":\" lacks a label"
  | missingPath => "missing filename in r/R/w/W commands"
  | flagsAlone => "cannot specify modifiers on empty regexp"
  | badReference number => "invalid reference \\" ++ Text.decimal number ++ " on `s' command's RHS"
  | noPattern => "no previous regular expression"

namespace Script

/-- Where the text of a script comes from. -/
inductive Source where
  /-- An argument, with its number among them. -/
  | expression (number : Nat)
  | file (path : String)
  deriving DecidableEq, Repr, Inhabited

/-- A fault in a script, at a character of its text. -/
structure Fault where
  source : Source
  /-- What has been read before it. -/
  before : List Char
  error : ScriptError
  deriving DecidableEq, Repr, Inhabited

def Fault.text (f : Fault) : String :=
  match f.source with
  | .expression number =>
    "-e expression #" ++ Text.decimal number ++ ", char " ++ Text.decimal f.before.length ++ ": "
      ++ f.error.text
  | .file path =>
    "file " ++ path ++ " line " ++ Text.decimal (f.before.count '\n' + 1) ++ ": " ++ f.error.text

/-- A part of a script. -/
structure Part where
  source : Source
  /-- The form of its patterns. -/
  extended : Bool
  text : List Char
  deriving DecidableEq, Repr, Inhabited

/-- A fault at no character of a part: behind its last line, if it comes from a file. -/
def Part.lateFault (p : Part) (error : ScriptError) : Fault :=
  match p.source with
  | .expression _ => ⟨p.source, [], error⟩
  | .file _ => ⟨p.source, p.text, error⟩

end Script

end NativeInterface.Format
