import NativeInterface.Backend.Selection
import NativeInterface.Toml.Reader

/-!
# The project configuration

A project may name a formatter and list the interface tags of its modules. Keys that are not known
are ignored; a known key with a value of the wrong type makes the file invalid.
-/

namespace NativeInterface

/-- The contents of a configuration file. -/
structure ProjectConfig where
  /-- The command run over generated files. -/
  formatter : Option String := none
  interfaces : InterfaceConfig := {}
  deriving DecidableEq, Repr, Inhabited

namespace ProjectConfig

/-- The tags of one module: the list under `interfaces`, or the first element of an array. A date
sets no key at all. -/
def tags? : Toml → Option (List String)
  | .table entries =>
    match entries.lookup "interfaces" with
    | some v => v.list? Toml.str?
    | none => some []
  | .arr (first :: _) => first.list? Toml.str?
  | .arr [] | .date _ => some []
  | _ => none

/-- The tags of each module of a part. -/
def modules? : Option Toml → Option (List (String × List String))
  | none => some []
  | some (.table entries) => entries.mapM fun (name, v) => do some (name, ← tags? v)
  | some _ => none

def formatter? : Option Toml → Option (Option String)
  | none => some none
  | some v => v.str?.map some

def ofToml? (v : Toml) : Option ProjectConfig := do
  let formatter ← formatter? (v.field? "formatter")
  let natives ← modules? (v.field? "natives")
  let libs ← modules? (v.field? "libs")
  some { formatter, interfaces := ⟨natives, libs⟩ }

/-- The configuration that a text describes. -/
def read? (text : String) : Option ProjectConfig := (Toml.read? text).bind ofToml?

end ProjectConfig

end NativeInterface
