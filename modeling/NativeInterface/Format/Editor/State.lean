import NativeInterface.Files.Tree
import NativeInterface.Format.Script
import NativeInterface.Format.Script.Fault
import NativeInterface.Format.Space

/-!
# The state of the stream editor

What the editor holds between instructions, and which lines the scope of an instruction includes.
-/

namespace NativeInterface.Format

/-- How far the range of an instruction has come. -/
inductive Progress where
  | inactive
  /-- Up to a line, or up to one that is looked for. -/
  | active (stop : Option Nat)
  | closed
  deriving DecidableEq, Repr, Inhabited

/-- What is put out at the end of a line's turn. -/
inductive Queued where
  | lines (lines : List (List Char))
  | file (path : String)
  deriving DecidableEq, Repr, Inhabited

namespace Editor

structure State where
  space : Space := {}
  hold : Space := {}
  /-- The number of the last line that was read. -/
  line : Nat := 0
  /-- The lines that have not been read. -/
  input : List Space := []
  /-- Ranges, by the number of instructions behind theirs. -/
  ranges : List (Nat × Progress) := []
  queue : List Queued := []
  /-- Something has been replaced. -/
  isReplaced : Bool := false
  output : Sink := {}
  files : List (String × Sink) := []
  /-- The last pattern that was looked for. -/
  recent : Option Pattern := none
  tree : Tree := {}
  deriving DecidableEq, Inhabited

/-! ### Scopes -/

/-- The pattern to look for, which becomes the last one. -/
def State.recall (s : State) (p : Option Pattern) : Except ScriptError (Pattern × State) :=
  match p.or s.recent with
  | some p => .ok (p, { s with recent := some p })
  | none => .error .noPattern

/-- Whether a line is one of those that a step leads to. -/
def isStep (line first size : Nat) : Bool := first ≤ line && (line - first) % size = 0

/-- Whether an address selects the current line. -/
def State.isAt (s : State) : Address → Except ScriptError (Bool × State)
  | .every => .ok (true, s)
  | .line number => .ok (s.line = number, s)
  | .last => .ok (s.input.isEmpty, s)
  | .matching p => do
    let (p, s) ← s.recall p
    .ok (p.isIn s.space.text, s)
  | .step first size => .ok (isStep s.line first size, s)

def State.progress (s : State) (key : Nat) (first : Address) : Progress :=
  (s.ranges.lookup key).getD (if first = .line 0 then .active none else .inactive)

def State.setProgress (s : State) (key : Nat) (progress : Progress) : State :=
  { s with ranges := (key, progress) :: s.ranges.filter (·.1 ≠ key) }

/-- The line up to which a range goes that begins at a line, if that is known. -/
def stopLine? (line : Nat) : RangeEnd → Option Nat
  | .address (.line number) => some number
  | .address _ => none
  | .more count => some (line + count)
  | .multiple size => some (if size = 0 then line else (line / size + 1) * size)

/-- Whether a range that goes on includes the current line. Lines may have been passed over; then
one behind a line with a number is outside, and one that comes too late for a count ends it. -/
def State.isInside (s : State) (key : Nat) (stop : RangeEnd) :
    Option Nat → Except ScriptError (Bool × State)
  | some number =>
    let isCounted := match stop with
      | .address _ => false
      | _ => true
    .ok (isCounted || s.line ≤ number, if number ≤ s.line then s.setProgress key .closed else s)
  | none =>
    match stop with
    | .address a => do
      let (found, s) ← s.isAt a
      .ok (true, if found then s.setProgress key .closed else s)
    | _ => .ok (true, s)

/-- Whether a range may begin at the current line. One that begins at a line with a number can
also do so behind it. -/
def State.isStart (s : State) : Address → Except ScriptError (Bool × State)
  | .line number => .ok (number ≤ s.line, s)
  | a => s.isAt a

/-- Whether a range that begins at the current line ends there too. A match that ends it is looked
for only in the lines behind the first one. -/
def State.endsAtOnce (s : State) (stop : RangeEnd) : Bool :=
  match stop, stopLine? s.line stop with
  | _, some number => number ≤ s.line
  | .address .last, none => s.input.isEmpty
  | .address (.step first size), none => isStep s.line first size
  | _, none => false

/-- Whether a range begins at the current line. One that should have begun and ended before does
not. -/
def State.begins (s : State) (key : Nat) (first : Address) (stop : RangeEnd) :
    Except ScriptError (Bool × State) := do
  let (found, s) ← s.isStart first
  if !found then .ok (false, s)
  else if s.endsAtOnce stop then
    let isMissed := match first, stop with
      | .line n, .address (.line m) => n < s.line && m < s.line
      | _, _ => false
    .ok (!isMissed, s.setProgress key .closed)
  else .ok (true, s.setProgress key (.active (stopLine? s.line stop)))

/-- Whether a scope includes the current line. -/
def State.isIn (s : State) (key : Nat) : Scope → Except ScriptError (Bool × State)
  | .every => .ok (true, s)
  | .only a => s.isAt a
  | .range .every _ => .ok (true, s)
  | .range first stop =>
    match s.progress key first with
    | .inactive => s.begins key first stop
    | .active number => s.isInside key stop number
    | .closed =>
      match first with
      | .line _ => .ok (false, s)
      | _ => s.begins key first stop

end Editor

end NativeInterface.Format
