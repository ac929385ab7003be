import GraphqlArtifacts.Discovery.Files
import GraphqlArtifacts.Engine.Watch
import GraphqlArtifacts.Language.Registry
import GraphqlArtifacts.Run.Validation
import GraphqlArtifacts.Schema.Load

-- A run of the compiler: its settings are validated, the schema and the language are loaded, what
-- is to be compiled is planned, and the plan is carried out once or for as long as files are
-- watched.

namespace GraphqlArtifacts

-- Why a run ends without an exit code of its own.
inductive RunFault
  | validation (e : ValidationError)
  | setting (e : SettingFault)
  | schema (e : SchemaLoadFault)
  | language (e : PluginRegistry.Fault)
  -- What the language resolves to is no plugin, and lacks what is asked of one.
  | noPart (kindName part : String)
  | search (e : SearchFault)
  | engine (e : EngineFault)

namespace RunFault

def message : RunFault → String
  | .validation (.configuration e) => e.message
  | .validation (.setting e) => e.message
  | .validation (.file e) => e.message
  | .setting e => e.message
  | .schema e => e.message
  | .language e => e.message
  | .noPart kindName part => s!"'{kindName}' object has no attribute '{part}'"
  | .search e => e.message
  | .engine e => e.message

def kindName : RunFault → String
  | .validation (.configuration _) => "ConfigurationError"
  | .validation (.setting e) => e.kindName
  | .validation (.file e) => e.fault.kindName
  | .setting e => e.kindName
  | .schema _ => "SchemaLoadError"
  | .language e => e.kindName
  | .noPart .. => "AttributeError"
  | .search e => e.kindName
  | .engine e => e.kindName

-- Whether the fault is one that the compiler foresees, and so reports as a message.
def isForeseen (e : RunFault) : Bool :=
  ["ConfigurationError", "SchemaLoadError", "PluginLoadError", "CodegenError",
    "WatchmanError"].contains e.kindName

end RunFault

structure RunInput where
  settings : Settings
  directory : Path
  languages : PluginRegistry
  modules : ModuleLibrary
  hasWatchman : Bool

inductive RunEnd
  | finished (exitCode : Nat)
  | stopped
  deriving DecidableEq, Repr

abbrev Run (σ α : Type) := ExceptT RunFault (StateM (EngineState σ)) α

namespace Run

variable {σ : Type}

def ofStep (step : Except RunFault α) : Run σ α :=
  ExceptT.mk (pure step)

def ofEngine (e : Engine σ α) : Run σ α :=
  ExceptT.mk do return (← e.run).mapError .engine

def tree : Run σ Tree := do
  return (← get).scene.tree

-- Whether the watch service is to be asked, and can be.
def asksService (w : World σ) (i : RunInput) : Run σ Bool :=
  if i.settings.isOn .watchman then
    ofEngine (Engine.talk (Watchman.isAvailable w.service i.hasWatchman))
  else
    pure false

-- The files that a search finds, unless the watch service finds them.
def listed (hasService : Bool) (s : Settings) (source : Path) (search : Search) :
    Run σ (Option (List String)) := do
  if hasService then return none
  let found := findFiles (← tree) source search (s.isOn .respectIgnoreFiles)
  some <$> ofStep (found.mapError .search)

-- The set of files that documents are searched in, or what selects it for the watch service.
def fileSet (hasService : Bool) (s : Settings) (source : Path) (search : Search)
    (reader : DocumentReader) (onlyMentioning : Bool) (schema : Schema) : Run σ FileSet := do
  let files ← listed hasService s source search
  let expression := if hasService then some search.term.toData else none
  return ⟨source, reader, schema, onlyMentioning, files, expression⟩

-- The name of the set of files that are documents as a whole.
def documentSetName : String :=
  "graphql"

-- The plugin of a run. Nothing else has the parts that are asked for first: the extensions of its
-- sources, unless some are set, and the extension of its artifacts.
def usable (s : Settings) : PluginCandidate → Except RunFault Plugin
  | .plugin p => .ok p
  | .other kindName =>
    if !s.isOn .extensions then .error (.noPart kindName "input_extensions")
    else if (s .extensions).items?.isNone then .error (.setting (.notList (s .extensions)))
    else .error (.noPart kindName "output_extension")

-- Whether a path is one of a generated module: by its name, and by the directory in it.
def isGenerated (suffix directory path : String) : Bool :=
  path.endsWith suffix && holdsText directory.toList path.toList

def plan (w : World σ) (i : RunInput) : Run σ Plan := do
  let s := i.settings
  let paths ← ofStep ((validate (← tree) s i.directory).mapError .validation)
  let hasService ← asksService w i
  let schema ← ofStep ((Schema.load (← tree) paths.schema).mapError .schema)
  let language ← ofStep (s.language.mapError .setting)
  let found := (i.languages.resolve i.modules (← tree) i.directory language).1
  let candidate ← ofStep (found.mapError .language)
  let plugin ← ofStep (usable s candidate)
  let extensions := (← ofStep (s.extensions?.mapError .setting)).getD plugin.inputExtensions
  let output := (← ofStep (s.artifactDirectory?.mapError .setting)).map fun text =>
    (i.directory.join text).normalize
  let includes ← ofStep (s.includes.mapError .setting)
  let excludes ← ofStep (s.excludes.mapError .setting)
  let sources ← fileSet hasService s paths.source (.sources extensions includes excludes)
    (.sources plugin.findTags) true schema
  let documents ← fileSet hasService s paths.source
    (.documents paths.source paths.schema includes excludes) .documents false schema
  let customScalars ← ofStep (s.customScalars.mapError .setting)
  discard (ofStep (s.pollInterval.mapError .setting))
  let sourceSetName := "/".intercalate extensions
  let writer : WriterSettings :=
    ⟨plugin, ⟨customScalars, s.isOn .noFutureProofEnums⟩, output⟩
  let directoryName := (output.map Path.text).getD Artifact.directoryName
  let p : Plan :=
    { fileSets := Data.insert documentSetName documents [(sourceSetName, sources)]
      outputs := [(plugin.outputExtension,
        ⟨writer, isGenerated (Artifact.suffix plugin) directoryName, sourceSetName,
          [documentSetName]⟩)]
      onlyValidate := s.isOn .validate
      hasService }
  ofStep (p.check.mapError fun e => .engine (.configuration e))
  return p

def hint : String :=
  "HINT: pass --watch to keep watching for changes."

-- A whole run. A run that watches is stopped after so many polls.
def all (w : World σ) (i : RunInput) (polls : Nat) : Run σ RunEnd := do
  let s := i.settings
  let p ← plan w i
  if !s.isOn .validate && !s.isOn .watch && s.isOn .watchman then
    ofEngine (Engine.report (.message hint))
  if s.isOn .watch then
    ofEngine (Engine.watchAll w p polls)
    return .stopped
  else
    let outcome ← ofEngine (Engine.compileAll w p)
    return .finished (outcome.exitCode (s.isOn .validate))

end Run

end GraphqlArtifacts
