import GraphqlArtifacts.Files.Tree
import GraphqlArtifacts.Language.Plugin

-- Modules that hold a plugin, and how they are found: in a file, in a directory, or by a name with
-- parts. A module that was loaded is found again by its name.

namespace GraphqlArtifacts

-- What loading a module and asking it for its plugin gives.
inductive PluginModule
  -- Loading fails.
  | broken (message : String)
  -- There is nothing that makes a plugin.
  | noFactory
  -- What should make a plugin fails, or makes something of another kind.
  | failing (message : String)
  | other (kindName : String)
  | plugin (p : Plugin)

-- A module with a name, and the directory in which its parts are found.
structure LoadedModule where
  content : PluginModule
  directory : Option Path

instance : Coe PluginModule LoadedModule :=
  ⟨(⟨·, none⟩)⟩

-- The modules that can be loaded: those in files, and those installed under a name.
structure ModuleLibrary where
  files : List (Path × PluginModule)
  installed : List (String × LoadedModule)

-- The modules loaded so far, by name.
abbrev LoadedModules := List (String × LoadedModule)

-- Why a module gives no plugin.
inductive ModuleFault
  | failed (message : String)
  | notInFile (path : Path)
  | notFound (name : String)
  | noParts (name whole : String)
  | noFactory
  | notPlugin (kindName : String)
  | file (e : FileError)
  deriving DecidableEq, Repr

def ModuleFault.message : ModuleFault → String
  | .failed message => message
  | .notInFile path => s!"no importable module at {path.text}"
  | .notFound name => s!"No module named {quoted name}"
  | .noParts name whole => s!"No module named {quoted name}; {quoted whole} is not a package"
  | .noFactory =>
    "Expected plugin to export a \x60language_plugin\x60 factory returning a LanguagePlugin."
  | .notPlugin kindName =>
    s!"Expected \x60language_plugin()\x60 to return a LanguagePlugin, got {kindName}."
  | .file e => e.message

namespace PluginModule

-- The plugin that a loaded module makes.
def make : PluginModule → Except ModuleFault Plugin
  | .broken message | .failing message => .error (.failed message)
  | .noFactory => .error .noFactory
  | .other kindName => .error (.notPlugin kindName)
  | .plugin p => .ok p

end PluginModule

namespace ModuleLibrary

-- The module in a file. A file that is not known to make a plugin makes none.
def inFile (library : ModuleLibrary) (t : Tree) (path : Path) : Except ModuleFault PluginModule :=
  match t.readBytes path with
  | .error e => .error (.file e)
  | .ok _ => .ok (((library.files.find? (·.1 == path)).map (·.2)).getD .noFactory)

def startName : String :=
  "__init__.py"

-- A part of a module with a directory: a directory with a start file, a file, or a directory.
def part? (library : ModuleLibrary) (t : Tree) (directory : Path) (name : String) :
    Option LoadedModule :=
  let inner := directory.child name
  let file := directory.child (name ++ ".py")
  if name.toList.contains '/' then
    none
  else if t.isFile (inner.child startName) then
    (library.inFile t (inner.child startName)).toOption.map (⟨·, some inner⟩)
  else if t.isFile file then
    (library.inFile t file).toOption.map (⟨·, none⟩)
  else if t.isDirectory inner then
    some ⟨.noFactory, some inner⟩
  else
    none

-- Loads a module and keeps it, unless it breaks.
def load (name : String) (m : LoadedModule) (loaded : LoadedModules) :
    Except ModuleFault LoadedModule × LoadedModules :=
  match m.content with
  | .broken message => (.error (.failed message), loaded.filter (·.1 != name))
  | _ => (.ok m, Data.insert name m loaded)

-- Loads what was found under a name, if something was.
def loadFound (name : String) (found : Except ModuleFault LoadedModule) (loaded : LoadedModules) :
    Except ModuleFault LoadedModule × LoadedModules :=
  match found with
  | .error e => (.error e, loaded)
  | .ok m => load name m loaded

def findInstalled (library : ModuleLibrary) (name : String) : Except ModuleFault LoadedModule :=
  match Data.lookup name library.installed with
  | none => .error (.notFound name)
  | some m => .ok m

-- The parts of a name between its dots, the last one first.
def partsOf (name : String) : List String :=
  ((name.toList.splitOn '.').map String.ofList).reverse

def nameOf (parts : List String) : String :=
  ".".intercalate parts.reverse

-- Finds a part of a module, which has a name of its own.
def findPart (library : ModuleLibrary) (t : Tree) (whole : LoadedModule) (outer : List String)
    (part : String) : Except ModuleFault LoadedModule :=
  match whole.directory with
  | none => .error (.noParts (nameOf (part :: outer)) (nameOf outer))
  | some directory =>
    match library.part? t directory part with
    | none => .error (.notFound (nameOf (part :: outer)))
    | some m => .ok m

-- Loads the module of a name with these parts. It is looked for only if it was not loaded; then the
-- module that it is a part of is loaded first.
def loadParts (library : ModuleLibrary) (t : Tree) :
    List String → LoadedModules → Except ModuleFault LoadedModule × LoadedModules
  | [], loaded => (.error (.notFound ""), loaded)
  | part :: outer, loaded =>
    let name := nameOf (part :: outer)
    match Data.lookup name loaded with
    | some m => (.ok m, loaded)
    | none =>
      if outer = [] then
        loadFound name (library.findInstalled name) loaded
      else
        let (whole, loaded) := loadParts library t outer loaded
        loadFound name (whole.bind fun m => library.findPart t m outer part) loaded

def loadNamed (library : ModuleLibrary) (t : Tree) (name : String) (loaded : LoadedModules) :
    Except ModuleFault LoadedModule × LoadedModules :=
  library.loadParts t (partsOf name) loaded

-- What the names of plugin modules start with.
def nameStart : String :=
  "relaycompiler_language_"

-- The name under which a module at a path is kept.
def nameAt (path : Path) : String :=
  nameStart ++ path.stem.map fun c => if isWordChar c then c else '_'

-- Loads the module at a path, even if it was loaded before. Of the files that can be imported only
-- those that end in .py are taken for such here, not compiled ones. Left out is also that a part of
-- a module that is itself named as the factory takes the place of the factory once it is imported.
def loadAt (library : ModuleLibrary) (t : Tree) (path : Path) (loaded : LoadedModules) :
    Except ModuleFault LoadedModule × LoadedModules :=
  let isDirectory := t.isDirectory path
  let file := if isDirectory then path.child startName else path
  if !isDirectory && !path.name.endsWith ".py" then
    (.error (.notInFile path), loaded)
  else
    match library.inFile t file with
    | .error e => (.error e, loaded.filter (·.1 != nameAt path))
    | .ok content =>
      load (nameAt path) ⟨content, if isDirectory then some path else none⟩ loaded

end ModuleLibrary

end GraphqlArtifacts
