-- The options that can be set, and the keys under which tables hold them.

namespace GraphqlArtifacts

inductive OptionName
  | schema
  | source
  | extensions
  | includes
  | excludes
  | verbose
  | quiet
  | watch
  | watchman
  | validate
  | noFutureProofEnums
  | language
  | artifactDirectory
  | customScalars
  | respectIgnoreFiles
  | pollInterval
  deriving DecidableEq, Repr

namespace OptionName

def all : List OptionName :=
  [schema, source, extensions, includes, excludes, verbose, quiet, watch, watchman, validate,
    noFutureProofEnums, language, artifactDirectory, customScalars, respectIgnoreFiles,
    pollInterval]

def key : OptionName → String
  | schema => "schema"
  | source => "src"
  | extensions => "extensions"
  | includes => "include"
  | excludes => "exclude"
  | verbose => "verbose"
  | quiet => "quiet"
  | watch => "watch"
  | watchman => "watchman"
  | validate => "validate"
  | noFutureProofEnums => "no_future_proof_enums"
  | language => "language"
  | artifactDirectory => "artifact_directory"
  | customScalars => "custom_scalars"
  | respectIgnoreFiles => "respect_gitignore"
  | pollInterval => "poll_interval_ms"

-- The second key of some options, without underscores.
def secondKey? : OptionName → Option String
  | noFutureProofEnums => some "noFutureProofEnums"
  | artifactDirectory => some "artifactDirectory"
  | customScalars => some "customScalars"
  | respectIgnoreFiles => some "respectGitignore"
  | pollInterval => some "pollIntervalMs"
  | _ => none

-- The option whose own key this is.
def ofKey? (key : String) : Option OptionName :=
  all.find? (·.key == key)

-- The option that a key or second key stands for.
def ofSpelling? (key : String) : Option OptionName :=
  all.find? fun name => name.key == key || name.secondKey? == some key

end OptionName

end GraphqlArtifacts
