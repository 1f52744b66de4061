import NativeInterface.Backend.Basic
import NativeInterface.Project.Discovery
import NativeInterface.Project.Launcher

/-!
# Artifacts

The header and the source of a spec are written as a pair: both are staged beside their targets and
then moved into place. When a step fails, what was staged is discarded, and a header whose source
cannot follow is taken away again.
-/

namespace NativeInterface

/-- The paths of a header and a source. -/
structure Artifacts where
  header : String
  source : String
  deriving DecidableEq, Repr, Inhabited

namespace Artifacts

/-- Where the contents of a file are staged. -/
def staging (path : String) : String := path ++ ".tmp"

/-- The directory of a spec's output. -/
def generatedDirectory (directory : String) : String := Path.join directory generatedName

def outputDirectory (directory backend : String) : String :=
  Path.join (generatedDirectory directory) backend

/-- The artifacts of a spec. -/
def of (directory name backend : String) : Artifacts :=
  let out := outputDirectory directory backend
  ⟨Path.join out (name ++ ".h"), Path.join out (name ++ ".c")⟩

/-- The file that keeps generated files out of version control. -/
def ignorePath (directory : String) : String :=
  Path.join (generatedDirectory directory) ".gitignore"

def ignoreText : String := "**/*.h\n**/*.c\n"

end Artifacts

namespace Run

/-- An action, and what is done when it fails. -/
def orElseDo {α : Type} (action : Run α) (cleanup : Run Unit) : Run α :=
  tryCatch action fun e => do cleanup; throw e

/-- Write both files of a pair, or neither. -/
def writePair (a : Artifacts) (code : GeneratedCode) : Run Unit := do
  let header := Artifacts.staging a.header
  let source := Artifacts.staging a.source
  orElseDo (do writeFile header code.header; writeFile source code.source)
    (do discard header; discard source)
  orElseDo (change a.header (·.rename header a.header))
    (do discard header; discard source)
  orElseDo (change a.source (·.rename source a.source))
    (do discard source; discard a.header)

/-- Write generated code below the directory of its spec. -/
def writeArtifacts (directory name : String) (code : GeneratedCode) : Run Artifacts := do
  makeDirectories (Artifacts.outputDirectory directory code.backend)
  writeFile (Artifacts.ignorePath directory) Artifacts.ignoreText
  let a := Artifacts.of directory name code.backend
  writePair a code
  report [.wrote a.header a.source]
  pure a

/-- Run a formatter over artifacts. Formatting is cosmetic: whatever goes wrong is only reported. -/
def format (launch : Launcher) (formatter : String) (a : Artifacts) : Run Unit := do
  match Text.words formatter with
  | [] => pure ()
  | program :: args =>
    match launch program (args ++ ["-i", a.header, a.source]) (← get).tree with
    | .error e => report [.formatterMissing program e.text]
    | .ok ended =>
      modify fun w => { w with tree := ended.tree }
      overhear ended.shown ended.spoken
      if ended.status = 0 then report [.formatted a.source program]
      else report [.formatterFailed program ("exit status: " ++ Text.decimal ended.status)]

end Run

end NativeInterface
