import GraphqlArtifacts.Json.Reader
import GraphqlArtifacts.Json.Printer
import GraphqlArtifacts.Discovery.Files
import GraphqlArtifacts.Run.Validation
import GraphqlArtifacts.Graphql.Parser
import GraphqlArtifacts.Graphql.Printer
import GraphqlArtifacts.Language.Javascript
import GraphqlArtifacts.Documents.DocumentFile
import GraphqlArtifacts.Schema.Extension
import GraphqlArtifacts.Schema.Load
import GraphqlArtifacts.Artifacts.Writer
import GraphqlArtifacts.Toml.Document
import GraphqlArtifacts.Config.File
import GraphqlArtifacts.CommandLine.Arguments
import GraphqlArtifacts.CommandLine.Help
import GraphqlArtifacts.Language.Registry
import GraphqlArtifacts.Engine.Watch
import GraphqlArtifacts.Run.Basic
import GraphqlArtifacts.Run.Console
import GraphqlArtifacts.CommandLine.Execute
import GraphqlArtifacts.Main
import GraphqlArtifacts.Proofs.Engine.Steps
import GraphqlArtifacts.Proofs.Data.Lookup
import GraphqlArtifacts.Proofs.Engine.Polls
import GraphqlArtifacts.Proofs.Engine.Inputs
import GraphqlArtifacts.Proofs.Engine.Reports
import GraphqlArtifacts.Proofs.Engine.Journal
import GraphqlArtifacts.Proofs.Engine.Settled
import GraphqlArtifacts.Proofs.Engine.Convergence
import GraphqlArtifacts.Proofs.Files.Tree
import GraphqlArtifacts.Proofs.Files.Walk
import GraphqlArtifacts.Proofs.Artifacts.Renderings
import GraphqlArtifacts.Proofs.Text.Utf8
import GraphqlArtifacts.Proofs.Text.CharClass
import GraphqlArtifacts.Proofs.Artifacts.Writes
import GraphqlArtifacts.Proofs.Artifacts.Stale
import GraphqlArtifacts.Proofs.Artifacts.Modes
import GraphqlArtifacts.Proofs.Run.Plan
import GraphqlArtifacts.Proofs.Artifacts.Sync
import GraphqlArtifacts.Proofs.Artifacts.Clashes
import GraphqlArtifacts.Proofs.Artifacts.CompileErrors
import GraphqlArtifacts.Proofs.Artifacts.Footprint
import GraphqlArtifacts.Proofs.Glob.Regex
import GraphqlArtifacts.Proofs.Glob.Directories
import GraphqlArtifacts.Proofs.Glob.Segments
import GraphqlArtifacts.Proofs.Glob.Matching
import GraphqlArtifacts.Proofs.Glob.Alternatives
import GraphqlArtifacts.Proofs.Glob.Hidden
import GraphqlArtifacts.Proofs.Glob.Braces
import GraphqlArtifacts.Proofs.Glob.Repetition
import GraphqlArtifacts.Proofs.Glob.Filter
import GraphqlArtifacts.Proofs.Discovery.Scan
import GraphqlArtifacts.Proofs.Discovery.Extensions
import GraphqlArtifacts.Proofs.Discovery.Modes
import GraphqlArtifacts.Proofs.Engine.Footprint
import GraphqlArtifacts.Proofs.Run.Footprint
import GraphqlArtifacts.Proofs.Discovery.Pruning
import GraphqlArtifacts.Proofs.Discovery.Ignoring
import GraphqlArtifacts.Proofs.Discovery.Sources
import GraphqlArtifacts.Proofs.Discovery.Documents
import GraphqlArtifacts.Proofs.Documents.Reached
import GraphqlArtifacts.Proofs.Validation.Known
import GraphqlArtifacts.Proofs.Artifacts.Locality
import GraphqlArtifacts.Proofs.Flow.Members
import GraphqlArtifacts.Proofs.Flow.Completeness
import GraphqlArtifacts.Proofs.Config.Layers
import GraphqlArtifacts.Proofs.Config.Load
import GraphqlArtifacts.Proofs.Data.Equality
import GraphqlArtifacts.Proofs.Engine.Crew
import GraphqlArtifacts.Proofs.Engine.Isolation
import GraphqlArtifacts.Proofs.Graphql.Scanning
import GraphqlArtifacts.Proofs.Graphql.Positions
import GraphqlArtifacts.Proofs.Graphql.Prefixes
import GraphqlArtifacts.Proofs.Schema.Building
import GraphqlArtifacts.Proofs.Schema.Lawful
import GraphqlArtifacts.Proofs.Schema.Provided
import GraphqlArtifacts.Proofs.Language.Registry
import GraphqlArtifacts.Proofs.Language.Loading
import GraphqlArtifacts.Proofs.Language.Memory
import GraphqlArtifacts.Proofs.Language.Resolution
import GraphqlArtifacts.Proofs.Files.Text
import GraphqlArtifacts.Proofs.Run.Generated
import GraphqlArtifacts.Proofs.CommandLine.Overlay
import GraphqlArtifacts.Proofs.Documents.Following
import GraphqlArtifacts.Proofs.Artifacts.OperationText
import GraphqlArtifacts.Proofs.Discovery.Listed
import GraphqlArtifacts.Proofs.Discovery.Asked
import GraphqlArtifacts.Proofs.Discovery.Faults
import GraphqlArtifacts.Proofs.Glob.Ranges
import GraphqlArtifacts.Proofs.Run.Foreseen
import GraphqlArtifacts.Proofs.Language.Tagging
import GraphqlArtifacts.Proofs.Documents.Mentioning
import GraphqlArtifacts.Proofs.Documents.Ignored
import GraphqlArtifacts.Proofs.Engine.Observed
import GraphqlArtifacts.Proofs.Engine.Windows
import GraphqlArtifacts.Proofs.Flow.Optional
import GraphqlArtifacts.Proofs.Flow.Reordering
import GraphqlArtifacts.Proofs.Flow.InputTypes
import GraphqlArtifacts.Proofs.Json.Strings
import GraphqlArtifacts.Proofs.Json.Numbers
import GraphqlArtifacts.Proofs.Json.RoundTrip
import GraphqlArtifacts.Proofs.Artifacts.Embedding
import GraphqlArtifacts.Proofs.Flow.Nesting
import GraphqlArtifacts.Proofs.Schema.Names
import GraphqlArtifacts.Proofs.Flow.Printing
import GraphqlArtifacts.Proofs.Flow.Declarations
import GraphqlArtifacts.Proofs.Graphql.Levels
import GraphqlArtifacts.Proofs.Flow.Nullability
import GraphqlArtifacts.Proofs.Run.RootFiles
import GraphqlArtifacts.Proofs.Config.Broken
import GraphqlArtifacts.Proofs.Artifacts.Rendered
import GraphqlArtifacts.Proofs.Watchman.Commands
import GraphqlArtifacts.Proofs.Watchman.Answers
import GraphqlArtifacts.Proofs.Watchman.Watching
