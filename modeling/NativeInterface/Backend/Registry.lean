import NativeInterface.Backend.CNode
import NativeInterface.Backend.Nif
import NativeInterface.Backend.Selection
import NativeInterface.Text.Quoted

/-!
# The registry of backends

Backends are looked up by name. Registering one under a name that is taken replaces it.
-/

namespace NativeInterface

/-- Backends in the order of their names, no two of one name. -/
structure Registry where
  backends : List Backend := []
  deriving Inhabited

namespace Registry

/-- Put a backend in its place, and replace the one of the same name. -/
def insert (b : Backend) : List Backend → List Backend
  | [] => [b]
  | c :: cs =>
    if b.name = c.name then b :: cs else if b.name < c.name then b :: c :: cs else c :: insert b cs

def register (r : Registry) (b : Backend) : Registry := ⟨insert b r.backends⟩

/-- The two backends that are always there. -/
def builtin : Registry := (Registry.register {} Nif.backend).register CNode.backend

def get? (r : Registry) (name : String) : Option Backend := r.backends.find? (·.name == name)

def names (r : Registry) : List String := r.backends.map (·.name)

/-- The quoted names in brackets. -/
def text (r : Registry) : String := "[" ++ Text.join ", " (r.names.map Text.quoted) ++ "]"

/-- The backend that handles a surface. -/
def resolve (r : Registry) (s : Surface) (config : InterfaceConfig) : Except Fault Backend := do
  let name ← s.backendName config
  match r.get? name with
  | some b => .ok b
  | none => .error (.unknownBackend name)

/-- Choose a backend and run it. -/
def generate (r : Registry) (name : String) (s : Surface) (config : InterfaceConfig) :
    Except Fault GeneratedCode := do
  .ok ((← r.resolve s config).generate name s)

/-- What generating reports. -/
def generateEvents (r : Registry) (name : String) (s : Surface) (config : InterfaceConfig) :
    List Event :=
  s.backendEvents config ++ match r.resolve s config with
    | .ok b => [.generating name b.name]
    | .error _ => []

end Registry

end NativeInterface
