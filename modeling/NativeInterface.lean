import NativeInterface.Backend.Basic
import NativeInterface.Backend.CNode
import NativeInterface.Backend.Json
import NativeInterface.Backend.Nif
import NativeInterface.Backend.Registry
import NativeInterface.Backend.Selection
import NativeInterface.C.Header
import NativeInterface.C.Item
import NativeInterface.C.Name
import NativeInterface.C.Step
import NativeInterface.C.Type
import NativeInterface.CommandLine
import NativeInterface.Compile
import NativeInterface.Declaration.Expr
import NativeInterface.Declaration.InPlace
import NativeInterface.Declaration.Parser
import NativeInterface.Diagnostic
import NativeInterface.Diagnostic.Json
import NativeInterface.Event
import NativeInterface.Fault
import NativeInterface.Files.Directories
import NativeInterface.Files.Path
import NativeInterface.Files.Tree
import NativeInterface.Format.Command
import NativeInterface.Format.Echo
import NativeInterface.Format.Editor
import NativeInterface.Format.Editor.Listing
import NativeInterface.Format.Editor.State
import NativeInterface.Format.Escape
import NativeInterface.Format.Options
import NativeInterface.Format.Regex
import NativeInterface.Format.Regex.Bracket
import NativeInterface.Format.Regex.Reader
import NativeInterface.Format.Regex.Token
import NativeInterface.Format.Script
import NativeInterface.Format.Script.Address
import NativeInterface.Format.Script.Fault
import NativeInterface.Format.Script.Operand
import NativeInterface.Format.Script.Reader
import NativeInterface.Format.Script.Scan
import NativeInterface.Format.Space
import NativeInterface.Format.Substitution
import NativeInterface.Generate
import NativeInterface.Hash.Sha256
import NativeInterface.Json.Basic
import NativeInterface.Json.Reader
import NativeInterface.Json.Writer
import NativeInterface.Main
import NativeInterface.Project.Artifacts
import NativeInterface.Project.Config
import NativeInterface.Project.Discovery
import NativeInterface.Project.Generate
import NativeInterface.Project.Launcher
import NativeInterface.Project.Run
import NativeInterface.Proofs.Aliases
import NativeInterface.Proofs.AppendedLine
import NativeInterface.Proofs.Atomicity
import NativeInterface.Proofs.Blocks
import NativeInterface.Proofs.Boundaries
import NativeInterface.Proofs.Builder
import NativeInterface.Proofs.ByteScan
import NativeInterface.Proofs.CallDepth
import NativeInterface.Proofs.Canonical
import NativeInterface.Proofs.Clauses
import NativeInterface.Proofs.CodeWords
import NativeInterface.Proofs.CursorMoves
import NativeInterface.Proofs.DeclaredNames
import NativeInterface.Proofs.DiagnosticPlaces
import NativeInterface.Proofs.Digest
import NativeInterface.Proofs.Discovered
import NativeInterface.Proofs.Edits
import NativeInterface.Proofs.Effects
import NativeInterface.Proofs.Enumerators
import NativeInterface.Proofs.Expansion
import NativeInterface.Proofs.FaultFree
import NativeInterface.Proofs.FaultPlaces
import NativeInterface.Proofs.FileLines
import NativeInterface.Proofs.FilesAgree
import NativeInterface.Proofs.FreeLayout
import NativeInterface.Proofs.GeneratedBlocks
import NativeInterface.Proofs.GeneratedNames
import NativeInterface.Proofs.Grammar
import NativeInterface.Proofs.Hygiene
import NativeInterface.Proofs.Idempotence
import NativeInterface.Proofs.Indexing
import NativeInterface.Proofs.Isolation
import NativeInterface.Proofs.JsonReading
import NativeInterface.Proofs.Layout
import NativeInterface.Proofs.LineEnds
import NativeInterface.Proofs.LineStarts
import NativeInterface.Proofs.LinesInPlace
import NativeInterface.Proofs.Literals
import NativeInterface.Proofs.LocalRuns
import NativeInterface.Proofs.Meaning
import NativeInterface.Proofs.Nesting
import NativeInterface.Proofs.NewDirectories
import NativeInterface.Proofs.Outcome
import NativeInterface.Proofs.Pairs
import NativeInterface.Proofs.ParserComplete
import NativeInterface.Proofs.ParserExact
import NativeInterface.Proofs.ParserInPlace
import NativeInterface.Proofs.ParserKinds
import NativeInterface.Proofs.ParserLine
import NativeInterface.Proofs.ParserSound
import NativeInterface.Proofs.Paths
import NativeInterface.Proofs.Places
import NativeInterface.Proofs.Plans
import NativeInterface.Proofs.Progress
import NativeInterface.Proofs.Record
import NativeInterface.Proofs.Recovery
import NativeInterface.Proofs.Rediscovery
import NativeInterface.Proofs.Reordering
import NativeInterface.Proofs.Resolution
import NativeInterface.Proofs.RoundTrip
import NativeInterface.Proofs.Routing
import NativeInterface.Proofs.Runs
import NativeInterface.Proofs.Sections
import NativeInterface.Proofs.Sites
import NativeInterface.Proofs.Spelling
import NativeInterface.Proofs.Subscripts
import NativeInterface.Proofs.SurfaceForm
import NativeInterface.Proofs.SurfaceJson
import NativeInterface.Proofs.Symbols
import NativeInterface.Proofs.Tiling
import NativeInterface.Proofs.TokenPlaces
import NativeInterface.Proofs.TokensInPlace
import NativeInterface.Proofs.TreeOperations
import NativeInterface.Proofs.TreePlaces
import NativeInterface.Proofs.TreeSpans
import NativeInterface.Proofs.Unplaced
import NativeInterface.Proofs.ValueCode
import NativeInterface.Record.Basic
import NativeInterface.Source.File
import NativeInterface.Source.Span
import NativeInterface.Surface.Basic
import NativeInterface.Surface.Builder
import NativeInterface.Surface.Clauses
import NativeInterface.Surface.Digest
import NativeInterface.Surface.InPlace
import NativeInterface.Surface.Json
import NativeInterface.Surface.Scope
import NativeInterface.Text.Bytes
import NativeInterface.Text.Class
import NativeInterface.Text.Quoted
import NativeInterface.Text.Shorter
import NativeInterface.Text.Words
import NativeInterface.Token.Basic
import NativeInterface.Token.InPlace
import NativeInterface.Token.Lexeme
import NativeInterface.Token.Lexer
import NativeInterface.Toml.Basic
import NativeInterface.Toml.Document
import NativeInterface.Toml.Reader
