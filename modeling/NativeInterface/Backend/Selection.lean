import NativeInterface.Event
import NativeInterface.Fault
import NativeInterface.Surface.Basic

/-!
# Choosing a backend

The first declared interface tag decides. A surface without one asks the project configuration,
whose native modules come before its libraries.
-/

namespace NativeInterface

/-- The interface tags that a project configures for its modules. -/
structure InterfaceConfig where
  natives : List (String × List String) := []
  libs : List (String × List String) := []
  deriving DecidableEq, Repr, Inhabited

namespace InterfaceConfig

/-- The two parts of a configuration, in the order in which they are asked. -/
inductive Part where
  | natives
  | libs
  deriving DecidableEq, Repr, Inhabited

def Part.text : Part → String
  | natives => "Natives"
  | libs => "Libs"

/-- The tags of a module; none when it is not listed. -/
def tags (c : InterfaceConfig) (part : Part) (moduleName : String) : List String :=
  let entries := match part with
    | .natives => c.natives
    | .libs => c.libs
  ((entries.find? (·.1 == moduleName)).map (·.2)).getD []

/-- The first tag of a module, with the part that lists it. -/
def first? (c : InterfaceConfig) (moduleName : String) : Option (Part × String) :=
  match c.tags .natives moduleName, c.tags .libs moduleName with
  | tag :: _, _ => some (.natives, tag)
  | [], tag :: _ => some (.libs, tag)
  | [], [] => none

end InterfaceConfig

/-- The backend that a tag names. The two spellings of each built-in backend are one; any other tag
stands for itself. -/
def canonicalBackend (tag : String) : String :=
  match Text.stripFront ":" tag with
  | "NIF" | "nif" => "nif"
  | "CNode" | "cnode" => "cnode"
  | other => other

namespace Surface

/-- The name of the backend that handles a surface. -/
def backendName (s : Surface) (config : InterfaceConfig) : Except Fault String :=
  match s.interface.bind (·.first?) with
  | some tag => .ok (canonicalBackend tag)
  | none =>
    match config.first? s.moduleName with
    | some (_, tag) => .ok (canonicalBackend tag)
    | none => .error (.interfaceNotSpecified s.moduleName)

/-- What choosing a backend reports: a tag that comes from the configuration. -/
def backendEvents (s : Surface) (config : InterfaceConfig) : List Event :=
  match s.interface.bind (·.first?) with
  | some _ => []
  | none => (config.first? s.moduleName).toList.map fun (part, tag) =>
      .interfaceConfigured s.moduleName tag part.text

end Surface

end NativeInterface
