import NativeInterface.Format.Script.Operand

/-!
# Reading scripts

The parts of a script are read one after another. A block may begin in one of them and end in
another.
-/

namespace NativeInterface.Format

namespace Script

namespace Reading

/-- The actions that take nothing behind their letter. -/
def plainAction? : Char → Option Action
  | '=' => some .lineNumber
  | 'd' => some .delete
  | 'D' => some .deleteLine
  | 'g' => some .get
  | 'G' => some .getMore
  | 'h' => some .hold
  | 'H' => some .holdMore
  | 'n' => some .next
  | 'N' => some .nextLine
  | 'p' => some .print
  | 'P' => some .printLine
  | 'x' => some .exchange
  | 'z' => some .zap
  | _ => none

/-- The number behind the letter of an action. -/
def argument? : Reading (Option Nat) := do
  match ← peekInk? with
  | some c => if c.isDigit then return some (← number) else return none
  | none => return none

/-- The fault of a block that is not closed, where this is left behind its opening. -/
def openBlock (part : Part) (rest : List Char) : Fault :=
  { part with text := part.text.take (part.text.length - rest.length) }.lateFault .openBlock

/-- What an instruction does. -/
def action (part : Part) (scope : Scope) (c : Char) : Reading Action := do
  match c with
  | '#' =>
    if scope ≠ .every then throw .addressedComment
    else
      skipWhile (· ≠ '\n')
      pure .nothing
  | '\x7b' =>
    let s ← get
    set { s with blocks := openBlock part s.rest :: s.blocks }
    pure .opening
  | '\x7d' =>
    let s ← get
    if s.blocks.isEmpty then throw .closedBlock
    else if scope ≠ .every then throw .addressedClosing
    else
      set { s with blocks := s.blocks.tail }
      finish
      pure .closing
  | ':' =>
    if scope ≠ .every then throw .addressedLabel
    else
      let name ← label
      if name.isEmpty then throw .missingLabel else pure (.label name)
  | 'v' =>
    let _ ← label
    pure .nothing
  | 'b' => return .jump .always (← label)
  | 't' => return .jump .replaced (← label)
  | 'T' => return .jump .notReplaced (← label)
  | 'a' => return .append (← text)
  | 'i' => return .insert (← text)
  | 'c' => return .change (← text)
  | 'r' => return .readFile (← path)
  | 'w' => return .writeFile (← path)
  | 's' => substitution part.extended
  | 'y' => exchange
  | 'l' =>
    let width ← argument?
    finish
    return .list width
  | 'q' | 'Q' =>
    match scope with
    | .range _ _ => throw .manyAddresses
    | _ =>
      let status := (← argument?).getD 0
      finish
      return if c = 'q' then .quit status else .stop status
  | _ =>
    match plainAction? c with
    | some a =>
      finish
      pure a
    | none => throw (.unknownCommand c)

/-- One instruction, if there is one more. -/
def instruction? (part : Part) : Reading (Option Instruction) := do
  skipWhile fun c => c = ';' || isSpace c
  if (← get).rest.isEmpty then return none
  else
    let (scope, c) ← scope part.extended
    let isNegated := c = some '!'
    let c ← if isNegated then nextInk? else pure c
    match c with
    | none => throw .missingCommand
    | some '!' => throw .manyNegations
    | some c => return some ⟨scope, isNegated, ← action part scope c⟩

/-- The instructions of a part, each of which takes a character. -/
def instructions (part : Part) : Nat → Reading Script
  | 0 => pure []
  | fuel + 1 => do
    match ← instruction? part with
    | none => pure []
    | some i => return i :: (← instructions part fuel)

end Reading

/-- Add lines to a text that was pending, whose last line stands as it was written. -/
def continueText (text lines : List (List Char)) : List (List Char) :=
  text.dropLast ++ text.getLast?.toList.map Reading.plainText ++ lines

/-- Add lines to the text of an action. -/
def addLines (lines : List (List Char)) : Action → Action
  | .append text => .append (continueText text lines)
  | .insert text => .insert (continueText text lines)
  | .change text => .change (continueText text lines)
  | a => a

/-- Add to the text of the last instruction. -/
def addText (lines : List (List Char)) : Script → Script
  | [] => []
  | [i] => [{ i with action := addLines lines i.action }]
  | i :: rest => i :: addText lines rest

/-- Read a part behind what has been read of a script. -/
def Reading.part (script : Script) (part : Part) : Reading Script := do
  let script ←
    if (← get).isPending then pure (addText [← textLine] script) else pure script
  return script ++ (← instructions part (part.text.length + 1))

/-- Read parts behind what has been read of a script. -/
def readFrom (script : Script) (blocks : List Fault) (isPending : Bool) :
    List Part → Except Fault Script
  | [] =>
    match blocks with
    | [] => .ok script
    | fault :: _ => .error fault
  | part :: more =>
    match (Reading.part script part).run.run ⟨part.text, blocks, isPending⟩ with
    | (.error error, s) =>
      .error ⟨part.source, part.text.take (part.text.length - s.rest.length), error⟩
    | (.ok script, s) => readFrom script s.blocks s.isPending more

/-- The script that parts spell together. -/
def read (parts : List Part) : Except Fault Script := readFrom [] [] false parts

end Script

end NativeInterface.Format
