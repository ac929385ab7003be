import GraphqlArtifacts.Files.Tree

-- Faults in the options of a run, found before any compilation.

namespace GraphqlArtifacts

inductive ConfigurationError
  | noSchemaGiven
  | noSourceGiven
  | schemaMissing (path : Path)
  | sourceMissing (path : Path)
  | watchWithoutWatchman
  | noRootFile (source : Path)
  | quietAndVerbose
  | unknownParser (writer parser : String)
  | ownBaseParser (writer parser : String)
  | parserNeedsClient (parser : String)
  | watchNeedsClient
  deriving DecidableEq, Repr

namespace ConfigurationError

def message : ConfigurationError → String
  | .noSchemaGiven => "--schema is required."
  | .noSourceGiven => "--src is required."
  | .schemaMissing path => s!"--schema path does not exist: {path.text}."
  | .sourceMissing path => s!"--src path does not exist: {path.text}."
  | .watchWithoutWatchman => "Watchman is required to watch for changes."
  | .noRootFile source =>
    "--watch requires that the src directory have a valid watchman \"root\" file.\n\n" ++
      "Root files can include:\n- A .git/ Git folder\n- A .hg/ Mercurial folder\n" ++
      "- A .watchmanconfig file\n\n" ++
      s!"Ensure that one such file exists in {source.text} or its parents."
  | .quietAndVerbose => "I can't be quiet and verbose at the same time"
  | .unknownParser writer parser => s!"writer '{writer}' depends on unknown parser '{parser}'"
  | .ownBaseParser writer parser =>
    s!"writer '{writer}' lists its own parser '{parser}' as a base parser"
  | .parserNeedsClient parser => s!"parser '{parser}' needs a watchman client"
  | .watchNeedsClient => "watch mode needs watchman to be installed and running"

end ConfigurationError

end GraphqlArtifacts
