import GraphqlArtifacts.Config.OptionName

-- The flags of the command line: how each is spelled, what it does, and so how many values it
-- takes.

namespace GraphqlArtifacts

namespace CommandLine

def programName : String :=
  "relaycompiler"

def version : String :=
  "0.1.0"

inductive Effect
  | help
  | version
  | debug
  | switch (name : OptionName) (on : Bool)
  | one (name : OptionName)
  | several (name : OptionName)
  | scalar
  deriving DecidableEq, Repr

structure Flag where
  spellings : List String
  effect : Effect
  help : String
  deriving DecidableEq, Repr

namespace Flag

-- All flags, in the order in which they are listed.
def all : List Flag := [
  ⟨["-h", "--help"], .help, "show this help message and exit"⟩,
  ⟨["--version"], .version, "show program's version number and exit"⟩,
  ⟨["--schema"], .one .schema, "path to schema.graphql or schema.json"⟩,
  ⟨["--src"], .one .source, "root directory of application code"⟩,
  ⟨["--extensions"], .several .extensions,
    "file extensions to compile (default: the language plugin's)"⟩,
  ⟨["--include"], .several .includes, "directories to include under src (default: **)"⟩,
  ⟨["--exclude"], .several .excludes, "directories to ignore under src"⟩,
  ⟨["--verbose"], .switch .verbose true, "more verbose logging"⟩,
  ⟨["--quiet"], .switch .quiet true, "no output to stdout"⟩,
  ⟨["--watch"], .switch .watch true, "if specified, watches files and regenerates on changes"⟩,
  ⟨["--no-watchman"], .switch .watchman false, "do not use watchman, even if it is available"⟩,
  ⟨["--validate"], .switch .validate true,
    "look for pending changes and exit with 101 if there are any"⟩,
  ⟨["--no-future-proof-enums"], .switch .noFutureProofEnums true,
    "leave '%future added value' out of generated enum types"⟩,
  ⟨["--language"], .one .language,
    "language plugin name, path, or relaycompiler_language_<name> suffix"⟩,
  ⟨["--artifact-directory"], .one .artifactDirectory,
    "a single directory for all generated artifacts"⟩,
  ⟨["--custom-scalar"], .scalar, "map a custom scalar to a target type (repeatable)"⟩,
  ⟨["--respect-gitignore"], .switch .respectIgnoreFiles true,
    "skip gitignored files when not using watchman"⟩,
  ⟨["--debug"], .debug, "enable debug logging for troubleshooting"⟩]

-- Each spelling with its flag, in order.
def spelled : List (String × Flag) :=
  all.flatMap fun flag => flag.spellings.map (·, flag)

def ofSpelling? (s : String) : Option Flag :=
  (spelled.find? (·.1 == s)).map (·.2)

-- The name of a flag in messages.
def title (flag : Flag) : String :=
  "/".intercalate flag.spellings

-- How a value of the flag is shown in the help text.
def valueName (flag : Flag) (spelling : String) : String :=
  match flag.effect with
  | .scalar => "NAME=TYPE"
  | _ => String.ofList ((spelling.toList.dropWhile (· == '-')).map fun c =>
      if c = '-' then '_' else c.toUpper)

-- A spelling of the flag with the values that it takes.
def shown (flag : Flag) (spelling : String) : String :=
  let value := flag.valueName spelling
  match flag.effect with
  | .one _ | .scalar => s!"{spelling} {value}"
  | .several _ => s!"{spelling} {value} [{value} ...]"
  | _ => spelling

end Flag

end CommandLine

end GraphqlArtifacts
