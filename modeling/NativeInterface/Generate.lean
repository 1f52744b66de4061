import NativeInterface.Backend.Registry
import NativeInterface.Compile
import NativeInterface.Surface.Digest

/-!
# From one spec file to code

A file is compiled, a backend is chosen and run. Whichever step fails first decides the diagnostics.
-/

namespace NativeInterface

/-- The outcome of one file: both artifacts and no diagnostics, or diagnostics alone. -/
structure CompileResult where
  success : Bool
  moduleName : Option String := none
  backend : Option String := none
  header : Option String := none
  source : Option String := none
  digest : Option String := none
  diagnostics : Diagnostics := {}
  deriving DecidableEq, Repr, Inhabited

namespace SourceFile

/-- Compile a file and generate code with the built-in backends. -/
def generate (f : SourceFile) (config : InterfaceConfig) : CompileResult :=
  match f.compile with
  | .error ds => { success := false, diagnostics := ds }
  | .ok s =>
    match Registry.builtin.generate (specName f.name) s config with
    | .ok code =>
      { success := true, moduleName := some s.moduleName, backend := some code.backend,
        header := some code.header, source := some code.source, digest := some s.digest }
    | .error fault => { success := false, diagnostics := .single (fault.diagnostic f) }

/-- What compiling a file and generating code reports. -/
def generateEvents (f : SourceFile) (config : InterfaceConfig) : List Event :=
  f.compileEvents ++ match f.compile with
    | .ok s => Registry.builtin.generateEvents (specName f.name) s config
    | .error _ => []

end SourceFile

end NativeInterface
