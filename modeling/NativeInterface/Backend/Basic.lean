import NativeInterface.Surface.Basic

/-!
# Backends

A backend turns a surface into the text of a header and of a source. The same surface always gives
the same text.
-/

namespace NativeInterface

/-- A header and a source, with the backend that made them. -/
structure GeneratedCode where
  backend : String
  header : String
  source : String
  deriving DecidableEq, Repr, Inhabited

/-- A generator of code, which is known by its name. -/
structure Backend where
  name : String
  /-- The header of a spec of some name. -/
  header : String → Surface → String
  /-- The source of a spec of some name. -/
  source : String → Surface → String
  deriving Inhabited

def Backend.generate (b : Backend) (name : String) (s : Surface) : GeneratedCode :=
  ⟨b.name, b.header name s, b.source name s⟩

end NativeInterface
