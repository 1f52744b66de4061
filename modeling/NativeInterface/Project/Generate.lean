import NativeInterface.Generate
import NativeInterface.Project.Artifacts
import NativeInterface.Project.Config

/-!
# Generating the artifacts of a project

Every spec file below the root is compiled by itself. A file that fails is recorded, and the run
goes on with the next one. The formatter is started by a launcher that the run is given.
-/

namespace NativeInterface

/-- A spec file that has artifacts now. -/
structure Generated where
  spec : String
  moduleName : String
  backend : String
  artifacts : Artifacts
  deriving DecidableEq, Repr, Inhabited

/-- The outcome of a run over a project. -/
structure Report where
  generated : List Generated := []
  failures : List Failure := []
  deriving DecidableEq, Repr, Inhabited

def Report.isSuccess (r : Report) : Bool := r.failures.isEmpty

namespace Run

/-- The configuration of a project; a missing file configures nothing. -/
def loadConfig (root : String) : Run ProjectConfig := do
  let path := Path.join root Event.configFile
  if (← get).tree.isFile path then
    match ProjectConfig.read? (← readFile path) with
    | none => throw (.config path)
    | some config =>
      report [.configLoaded path config.interfaces.natives.length config.interfaces.libs.length]
      pure config
  else
    report [.configMissing root]
    pure {}

/-- The surface of a spec file. -/
def compileSpec (spec : SpecFile) : Run Surface := do
  report spec.source.compileEvents
  match spec.source.compile with
  | .ok s => pure s
  | .error ds => throw (.compile spec.path ds)

/-- The code of a spec file. -/
def generateCode (config : InterfaceConfig) (spec : SpecFile) (s : Surface) :
    Run GeneratedCode := do
  report (Registry.builtin.generateEvents spec.name s config)
  match Registry.builtin.generate spec.name s config with
  | .ok code => pure code
  | .error fault => throw (.compile spec.path (.single (fault.diagnostic spec.source)))

/-- Compile one spec file and write its artifacts. -/
def generateSpec (launch : Launcher) (config : ProjectConfig) (spec : SpecFile) :
    Run Generated := do
  let s ← compileSpec spec
  let code ← generateCode config.interfaces spec s
  let a ← writeArtifacts spec.directory spec.name code
  match config.formatter with
  | none => pure ()
  | some formatter => format launch formatter a
  pure ⟨spec.path, s.moduleName, code.backend, a⟩

/-- Take one spec file into a report. -/
def addSpec (launch : Launcher) (config : ProjectConfig) (r : Report) (spec : SpecFile) :
    Run Report :=
  tryCatch
    (do
      let g ← generateSpec launch config spec
      pure { r with generated := r.generated ++ [g] })
    fun failure => do
      report [.generationFailed spec.path]
      pure { r with failures := r.failures ++ [failure] }

/-- Generate the artifacts of every spec below a root, in the order of their paths. -/
def generate (launch : Launcher) (root : String) : Run Report := do
  let config ← loadConfig root
  let specs ← discover root
  let r ← specs.foldlM (addSpec launch config) {}
  report [.finished r.generated.length r.failures.length]
  pure r

/-- The diagnostics of one spec file. -/
def check (path : String) : Run Diagnostics := do
  let spec ← readSpec path
  report spec.source.compileEvents
  pure spec.source.check

/-- The surface of one spec file. -/
def surface (path : String) : Run Surface := do compileSpec (← readSpec path)

end Run

end NativeInterface
