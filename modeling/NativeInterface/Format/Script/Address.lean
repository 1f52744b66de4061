import NativeInterface.Format.Escape
import NativeInterface.Format.Regex.Reader
import NativeInterface.Format.Script
import NativeInterface.Format.Script.Scan

/-!
# Reading addresses

An address is a line number, a pattern or a step; one or two of them in front of an instruction are
its scope.
-/

namespace NativeInterface.Format.Script.Reading

/-- The pattern that a text spells; the empty one stands for the last that was looked for. -/
def pattern (extended : Bool) (text : List Char) (ignoreCase multiline : Bool) :
    Reading (Option Pattern) := do
  if text.isEmpty then
    if ignoreCase || multiline then throw .flagsAlone else pure none
  else match Regex.read extended (unescape text) with
    | .ok regex => pure (some { regex, ignoreCase, multiline })
    | .error e => throw (.regex e)

/-- The flags of an address. -/
def isAddressFlag (c : Char) : Bool := c = 'I' || c = 'M' || isBlank c

/-- A pattern behind its first delimiter, with its flags. -/
def matching (extended : Bool) (delimiter : Char) : Reading Address := do
  let text ← delimited (patternUpTo delimiter .plain) .openAddress
  let flags ← takeWhile isAddressFlag
  return .matching (← pattern extended text (flags.contains 'I') (flags.contains 'M'))

/-- An address, if there is one. -/
def rangeEnd? (extended : Bool) : Reading (Option RangeEnd) := do
  match ← peekInk? with
  | some '/' =>
    let _ ← next?
    return some (.address (← matching extended '/'))
  | some '\\' =>
    let _ ← next?
    match ← next? with
    | none => throw .openAddress
    | some delimiter => return some (.address (← matching extended delimiter))
  | some '$' =>
    let _ ← next?
    return some (.address .last)
  | some '+' =>
    let _ ← next?
    skipWhile isBlank
    return some (.more (← number))
  | some '~' =>
    let _ ← next?
    skipWhile isBlank
    return some (.multiple (← number))
  | some c =>
    if c.isDigit then
      let first ← number
      if (← peekInk?) = some '~' then
        let _ ← next?
        skipWhile isBlank
        let size ← number
        return some (.address (if size = 0 then .line first else .step first size))
      else return some (.address (.line first))
    else return none
  | none => return none

/-- The address that a range begins with. A count of nothing selects every line. -/
def firstAddress : RangeEnd → Reading Address
  | .address a => pure a
  | .more 0 | .multiple 0 => pure .every
  | .more _ | .multiple _ => throw .relativeFirst

/-- Refuse line zero, but as the first line of a range up to a match. -/
def checkScope : Scope → Reading Scope
  | .range (.line 0) (.address (.matching p)) => pure (.range (.line 0) (.address (.matching p)))
  | .range (.line 0) _ | .only (.line 0) => throw .lineZero
  | scope => pure scope

/-- The scope of an instruction, with the first character of what it does. -/
def scope (extended : Bool) : Reading (Scope × Option Char) := do
  match ← rangeEnd? extended with
  | none => return (.every, ← nextInk?)
  | some first =>
    let first ← firstAddress first
    match ← nextInk? with
    | some ',' =>
      match ← rangeEnd? extended with
      | none =>
        let _ ← next?
        throw .unexpectedComma
      | some stop =>
        let c ← nextInk?
        return (← checkScope (.range first stop), c)
    | c => return (← checkScope (.only first), c)

end NativeInterface.Format.Script.Reading
