import NativeInterface.Text.Words

/-!
# Paths

A path is a text of parts between slashes. Repeated slashes and inner `.` parts do not count; a
leading `.` does.
-/

namespace NativeInterface

namespace Path

/-- A part of a path. -/
inductive Part where
  /-- The slash in front of an absolute path. -/
  | root
  /-- A leading `.`. -/
  | here
  | up
  | name (text : String)
  deriving DecidableEq, Repr, Inhabited

namespace Part

/-- The order of parts: the root, `.`, `..`, then names by their characters. -/
def le : Part → Part → Bool
  | root, _ => true
  | here, root => false
  | here, _ => true
  | up, root | up, here => false
  | up, _ => true
  | name a, name b => a ≤ b
  | name _, _ => false

def ofText (w : List Char) : Part := if w = ['.', '.'] then up else name (String.ofList w)

end Part

/-- The parts of a path. -/
def parts (p : String) : List Part :=
  match Text.splitOn '/' p.toList with
  | [] => []
  | w :: ws =>
    let first :=
      if w.isEmpty then (if ws.isEmpty then [] else [Part.root])
      else if w = ['.'] then [Part.here]
      else [Part.ofText w]
    first ++ ws.filterMap fun w => if w.isEmpty || w = ['.'] then none else some (Part.ofText w)

/-- Paths are ordered part by part. -/
def partsLe : List Part → List Part → Bool
  | [], _ => true
  | _ :: _, [] => false
  | a :: as, b :: bs => if a = b then partsLe as bs else Part.le a b

def le (p q : String) : Bool := partsLe (parts p) (parts q)

/-- The last part, if it is a name. -/
def fileName? (p : String) : Option String :=
  match (parts p).getLast? with
  | some (.name text) => some text
  | _ => none

/-- A reversed path without slashes and inner `.` parts at its end; the root stays. -/
def trimEnd : List Char → List Char
  | '/' :: [] => ['/']
  | '/' :: rest => trimEnd rest
  | '.' :: '/' :: rest => trimEnd ('/' :: rest)
  | cs => cs

/-- The path without its last part. The root and the empty path have none. -/
def parent? (p : String) : Option String :=
  let back := trimEnd p.toList.reverse
  if back.isEmpty || back = ['/'] then none
  else some (String.ofList (trimEnd (back.dropWhile (· ≠ '/'))).reverse)

/-- A path below another one; an absolute path stands for itself. -/
def join (base p : String) : String :=
  if p.toList.head? = some '/' then p
  else if base.isEmpty || base.toList.getLast? = some '/' then base ++ p
  else base ++ "/" ++ p

/-- The path and its parents, from the longest on, without the empty path. -/
def ancestors (p : String) : List String :=
  if p.isEmpty then []
  else p :: match parent? p with
    | some q => if q.length < p.length then ancestors q else []
    | none => []
termination_by p.length

/-- The text without a suffix, if it has it. -/
def stripSuffix? (suffix s : String) : Option String :=
  if suffix.toList.isSuffixOf s.toList then
    some (String.ofList (s.toList.take (s.length - suffix.length)))
  else none

end Path

/-- The suffix of spec files. -/
def specSuffix : String := ".bspec"

/-- The name of a spec: its file name without the suffix. -/
def specName (path : String) : String :=
  let base := (Path.fileName? path).getD path
  (Path.stripSuffix? specSuffix base).getD base

end NativeInterface
