import GraphqlArtifacts.Language.Javascript
import GraphqlArtifacts.Language.PluginModule
import GraphqlArtifacts.Text.Order

-- The languages of a run. A language is found by its registered name, then among the plugins that
-- are advertised, then as a path, and last as the name of an installed module.

namespace GraphqlArtifacts

-- What stands where a plugin is expected: a plugin, or a value of another kind.
inductive PluginCandidate
  | plugin (p : Plugin)
  | other (kindName : String)

instance : Coe Plugin PluginCandidate :=
  ⟨.plugin⟩

-- What makes a plugin: what it makes, or the message with which making it fails.
abbrev PluginMaker := Except String PluginCandidate

-- Why a language cannot be resolved.
inductive PluginLoadError
  | maker (language message : String)
  | module (location : String) (fault : ModuleFault)
  deriving DecidableEq, Repr

def PluginLoadError.message : PluginLoadError → String
  | .maker language message => s!"Unable to load language plugin {language}: {message}"
  | .module location fault => s!"Unable to load language plugin {location}: {fault.message}"

structure PluginRegistry where
  registered : List (String × PluginMaker)
  -- What is advertised counts once it was looked for.
  advertised : List (String × PluginMaker)
  loaded : LoadedModules

namespace PluginRegistry

-- The language that is always known.
def start (advertised : List (String × PluginMaker)) : PluginRegistry :=
  ⟨[("javascript", .ok Plugin.javascript)], advertised, []⟩

def register (r : PluginRegistry) (name : String) (maker : PluginMaker) : PluginRegistry :=
  { r with registered := Data.insert name maker r.registered }

-- Registers what is advertised under names that are not taken.
def discover (r : PluginRegistry) : PluginRegistry :=
  let registered := r.advertised.foldl
    (fun known (name, maker) =>
      if (Data.lookup name known).isSome then known else known ++ [(name, maker)])
    r.registered
  { r with registered, advertised := [] }

-- The names of all languages, in order, once what is advertised was looked for.
def names (r : PluginRegistry) : List String :=
  sortTexts (r.discover.registered.map (·.1))

-- Why resolving a language ends without a result.
inductive Fault
  | load (e : PluginLoadError)
  -- It cannot be told whether the language is a path.
  | file (e : FileError)
  | nullCharacter
  deriving DecidableEq, Repr

namespace Fault

def message : Fault → String
  | .load e => e.message
  | .file e => e.message
  | .nullCharacter => "embedded null byte"

def kindName : Fault → String
  | .load _ => "PluginLoadError"
  | .file e => e.fault.kindName
  | .nullCharacter => "ValueError"

end Fault

-- What a registered maker makes, whatever it is.
def made (language : String) (maker : PluginMaker) : Except Fault PluginCandidate :=
  maker.mapError fun message => .load (.maker language message)

-- The plugin of a module, loaded from a path if there is something, else by its name.
def resolveModule (library : ModuleLibrary) (t : Tree) (directory : Path) (language : String)
    (loaded : LoadedModules) : Except Fault PluginCandidate × LoadedModules :=
  let path := (directory.join language).normalize
  if language.toList.contains '\x00' then
    (.error .nullCharacter, loaded)
  else
    match t.hasEntry path with
    | .error e => (.error (.file e), loaded)
    | .ok isThere =>
      let location := if isThere then path.text else ModuleLibrary.nameStart ++ language
      let (m, loaded) :=
        if isThere then library.loadAt t path loaded else library.loadNamed t location loaded
      let plugin := m.bind fun m => m.content.make
      ((plugin.map .plugin).mapError fun e => .load (.module location e), loaded)

def resolve (r : PluginRegistry) (library : ModuleLibrary) (t : Tree) (directory : Path)
    (language : String) : Except Fault PluginCandidate × PluginRegistry :=
  match Data.lookup language r.registered with
  | some maker => (made language maker, r)
  | none =>
    let r := r.discover
    match Data.lookup language r.registered with
    | some maker => (made language maker, r)
    | none =>
      let (candidate, loaded) := resolveModule library t directory language r.loaded
      (candidate, { r with loaded })

end PluginRegistry

end GraphqlArtifacts
