import NativeInterface.Format.Regex.Token

/-!
# Reading regular expressions

Tokens are read one after another; the groups around the current one wait until it is closed.
-/

namespace NativeInterface.Format.Regex

/-- A group that is being read. -/
structure Frame where
  number : Nat
  /-- The groups that were closed in front of it. -/
  before : List Nat := []
  /-- The groups that were closed in the branches before the current one. -/
  inBranches : List Nat := []
  /-- The branches before the current one. -/
  branches : Option Regex := none
  /-- The current branch, its last part first. -/
  parts : List Regex := []
  prior : Prior := .nothing
  deriving DecidableEq, Repr, Inhabited

namespace Frame

def branch (f : Frame) : Regex := f.parts.foldl (fun r part => .seq part r) .empty

/-- The branches read so far as one expression. -/
def regex (f : Frame) : Regex :=
  match f.branches with
  | none => f.branch
  | some r => .alt r f.branch

def push (f : Frame) (r : Regex) (prior : Prior) : Frame :=
  { f with parts := r :: f.parts, prior }

end Frame

/-- How far reading has come. -/
structure State where
  /-- The innermost group. -/
  inner : Frame := { number := 0 }
  outer : List Frame := []
  /-- How many groups have been opened. -/
  groups : Nat := 0
  /-- The groups that have been closed in front of what is read next. -/
  closed : List Nat := []
  /-- A class with a name lacks its outer brackets. -/
  isBare : Bool := false
  deriving DecidableEq, Repr, Inhabited

namespace State

def push (s : State) (r : Regex) (prior : Prior) : State := { s with inner := s.inner.push r prior }

/-- Repeat the last part of the current branch. -/
def repeatLast (s : State) (least : Nat) (most : Option Nat) : State :=
  match s.inner.parts with
  | [] => s
  | r :: rest =>
    { s with inner := { s.inner with parts := .times r least most :: rest, prior := .repeated } }

def close (s : State) : Except RegexError State :=
  match s.outer with
  | [] => .error .closedGroup
  | f :: outer =>
    let number := s.inner.number
    .ok { s with
      inner := f.push (.group number s.inner.regex) .atom
      outer
      closed := number :: s.closed ++ s.inner.inBranches }

def advance (extended : Bool) (s : State) : Token → Except RegexError State
  | .single one => .ok (s.push (.single one) .atom)
  | .bracket outside ms =>
    .ok { s.push (.single (.among outside (ms.flatMap Member.toRanges))) .atom with
      isBare := s.isBare || looksBare ms }
  | .edge e => .ok (s.push (.edge e) .edge)
  | .back number =>
    if s.closed.contains number then .ok (s.push (.back number) .atom) else .error .badReference
  | .opening =>
    .ok { s with
      inner := { number := s.groups + 1, before := s.closed }
      outer := s.inner :: s.outer
      groups := s.groups + 1 }
  | .closing => s.close
  | .bar =>
    .ok { s with
      inner := { s.inner with
        inBranches := s.closed ++ s.inner.inBranches
        branches := some s.inner.regex
        parts := []
        prior := .nothing }
      closed := s.inner.before }
  | .repeated c least most =>
    if s.inner.prior.isRepeatable then
      if s.inner.prior = .repeated && !extended && c = '*' then .error .badRepetition
      else .ok (s.repeatLast least most)
    else if extended then .error .badRepetition
    else .ok (s.push (.single (.char c)) .atom)
  | .interval least most => .ok (s.repeatLast least most)

def finish (s : State) : Except RegexError Regex :=
  if !s.outer.isEmpty then .error .openGroup
  else if s.isBare then .error .bareClass
  else .ok s.inner.regex

end State

/-- The rest of an expression. -/
def readFrom (extended : Bool) (s : State) (cs : List Char) : Except RegexError Regex :=
  match cs with
  | [] => s.finish
  | c :: cs => do
    let (t, r) ← token extended s.inner.prior (c :: cs)
    readFrom extended (← s.advance extended t) r.val
termination_by cs.length
decreasing_by exact r.property

/-- The expression that a text spells. -/
def read (extended : Bool) (cs : List Char) : Except RegexError Regex := readFrom extended {} cs

end NativeInterface.Format.Regex
