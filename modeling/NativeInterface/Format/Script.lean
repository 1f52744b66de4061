import NativeInterface.Format.Substitution

/-!
# Editing scripts

A script is a list of instructions. Each of them works on the lines that its scope selects.
-/

namespace NativeInterface.Format

/-- What selects a line. -/
inductive Address where
  | every
  | line (number : Nat)
  | last
  /-- Lines with a match, of the last pattern that was looked for if there is none. -/
  | matching (pattern : Option Pattern)
  /-- A line, and from it on every line a number of lines behind one. -/
  | step (first size : Nat)
  deriving DecidableEq, Repr, Inhabited

/-- What ends a range of lines. -/
inductive RangeEnd where
  | address (a : Address)
  /-- So many lines behind the first one. -/
  | more (count : Nat)
  /-- The next line behind the first one whose number is a multiple of this one. -/
  | multiple (size : Nat)
  deriving DecidableEq, Repr, Inhabited

/-- Which lines an instruction works on. -/
inductive Scope where
  | every
  | only (a : Address)
  | range (first : Address) (stop : RangeEnd)
  deriving DecidableEq, Repr, Inhabited

/-- When a jump is made. -/
inductive Condition where
  | always
  /-- Something has been replaced since the last line was read or the last such jump was made. -/
  | replaced
  | notReplaced
  deriving DecidableEq, Repr, Inhabited

/-- What an instruction does to the pattern space, the hold space and the output. -/
inductive Action where
  | nothing
  /-- The start of a block. -/
  | opening
  | closing
  | label (name : List Char)
  /-- Go on behind a label, or at the end of the script. -/
  | jump (condition : Condition) (label : List Char)
  | substitute (s : Substitution)
  | exchangeChars (table : List (Char × Char))
  | delete
  /-- Delete the first line, and start again with what is left. -/
  | deleteLine
  | print
  | printLine
  /-- Print, and read the next line. -/
  | next
  /-- Add the next line. -/
  | nextLine
  | hold
  | holdMore
  | get
  | getMore
  | exchange
  | zap
  | lineNumber
  /-- Show the text with its special characters written out, in lines of a width. -/
  | list (width : Option Nat)
  | append (lines : List (List Char))
  | insert (lines : List (List Char))
  | change (lines : List (List Char))
  | readFile (path : String)
  | writeFile (path : String)
  /-- Print and stop. -/
  | quit (status : Nat)
  | stop (status : Nat)
  deriving DecidableEq, Repr, Inhabited

structure Instruction where
  scope : Scope := .every
  /-- Works on the other lines. -/
  isNegated : Bool := false
  action : Action
  deriving DecidableEq, Repr, Inhabited

abbrev Script := List Instruction

namespace Script

/-- The script behind the end of a block, `depth` blocks inside which have been opened. -/
def behindBlock : Nat → Script → Script
  | _, [] => []
  | depth, i :: rest =>
    match i.action, depth with
    | .closing, 0 => rest
    | .closing, depth + 1 => behindBlock depth rest
    | .opening, depth => behindBlock (depth + 1) rest
    | _, depth => behindBlock depth rest

/-- The script behind a label; behind everything, if the label is empty. -/
def behindLabel? (name : List Char) : Script → Option Script
  | [] => if name.isEmpty then some [] else none
  | i :: rest =>
    if i.action = .label name && !name.isEmpty then some rest else behindLabel? name rest

/-- The last label that a jump lacks. -/
def missingLabel? (script : Script) : Option (List Char) :=
  script.reverse.findSome? fun i =>
    match i.action with
    | .jump _ name => if (behindLabel? name script).isNone then some name else none
    | _ => none

/-- The files that a script writes. -/
def written (script : Script) : List String :=
  (script.filterMap fun i =>
    match i.action with
    | .writeFile path => some path
    | .substitute s => s.path
    | _ => none).eraseDups

end Script

end NativeInterface.Format
