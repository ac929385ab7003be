import GraphqlArtifacts.Config.Environment
import GraphqlArtifacts.Files.Tree
import GraphqlArtifacts.Toml.Document

-- Settings from configuration files: a file of their own, or a table in the file of a project. A
-- file that is missing, cannot be read or is not well-formed sets nothing, but its bytes must be
-- text, and no name on the way to it may be too long.

namespace GraphqlArtifacts

-- Why the settings of a file cannot be read.
inductive ConfigFault
  | notReached (e : FileError)
  | notText (e : Utf8.Error)
  -- What should hold the table of settings, and the settings themselves.
  | toolNotTable (d : Data)
  | settingsNotTable (d : Data)
  -- Custom scalars are a table or a list of pairs.
  | scalarsNotPairs (d : Data)
  | scalarNotPair (index : Nat)
  | scalarSize (index size : Nat)
  | scalarKey (d : Data)
  deriving Repr

namespace ConfigFault

def message : ConfigFault → String
  | .notReached e => e.message
  | .notText e => e.message
  | .toolNotTable d => s!"'{d.kindName}' object has no attribute 'get'"
  | .settingsNotTable d => s!"'{d.kindName}' object has no attribute 'items'"
  | .scalarsNotPairs d => s!"'{d.kindName}' object is not iterable"
  | .scalarNotPair index =>
    s!"cannot convert dictionary update sequence element #{index} to a sequence"
  | .scalarSize index size =>
    s!"dictionary update sequence element #{index} has length {size}; 2 is required"
  | .scalarKey d => s!"unhashable type: '{d.kindName}'"

def kindName : ConfigFault → String
  | .notReached e => e.fault.kindName
  | .notText _ => "UnicodeDecodeError"
  | .toolNotTable _ | .settingsNotTable _ => "AttributeError"
  | .scalarsNotPairs _ | .scalarNotPair _ | .scalarKey _ => "TypeError"
  | .scalarSize .. => "ValueError"

end ConfigFault

namespace ConfigFile

-- Custom scalars

-- Sets the value of a key. Keys are compared as values, so numbers of different kinds may be one
-- key, of which the first stays.
def insertPair (key value : Data) : List (Data × Data) → List (Data × Data)
  | [] => [(key, value)]
  | (k, v) :: rest =>
    if k.same key then (k, value) :: rest else (k, v) :: insertPair key value rest

-- The pairs in a list, from an index on, added to those before it.
def readPairs (index : Nat) (pairs : List (Data × Data)) :
    List Data → Except ConfigFault (List (Data × Data))
  | [] => .ok pairs
  | item :: rest =>
    match item.items? with
    | none => .error (.scalarNotPair index)
    | some [.list xs, _] => .error (.scalarKey (.list xs))
    | some [.table xs, _] => .error (.scalarKey (.table xs))
    | some [key, value] => readPairs (index + 1) (insertPair key value pairs) rest
    | some other => .error (.scalarSize index other.length)

-- The custom scalars that a value describes. Names and types are shown as text.
def scalars (d : Data) : Except ConfigFault Data := do
  let pairs ← match d, d.items? with
    | .table entries, _ => .ok (entries.map fun (key, value) => (Data.text key, value))
    | _, some items => readPairs 0 [] items
    | d, none => .error (.scalarsNotPairs d)
  return .table (pairs.foldl
    (fun entries (key, value) => Data.insert key.display (.text value.display) entries) [])

-- Tables of settings

-- A single text stands for the list that holds it.
def listed : Data → Data
  | .text s => .list [.text s]
  | d => d

-- The values that a table sets, in order. Other keys are passed over.
def valuesOf (entries : List (String × Data)) : List (OptionName × Data) :=
  entries.filterMap fun (key, value) => (OptionName.ofSpelling? key).map (·, value)

-- The value that a table sets an option to: of several keys for it, the last counts.
def value? (entries : List (String × Data)) (name : OptionName) : Option Data :=
  ((valuesOf entries).reverse.find? (·.1 == name)).map (·.2)

-- The settings of a table; options that it does not name have their defaults.
def settingsOf (entries : List (String × Data)) : Except ConfigFault Settings := do
  let scalars ← (value? entries .customScalars).mapM scalars
  return fun name =>
    let given := match name with
      | .customScalars => scalars
      | .extensions | .includes | .excludes => (value? entries name).map listed
      | name => value? entries name
    given.getD (Settings.defaults name)

def settingsIn : Data → Except ConfigFault Settings
  | .table entries => settingsOf entries
  | d => .error (.settingsNotTable d)

-- Files

-- The document in a file, if it can be read and is well-formed.
def document (t : Tree) (path : Path) : Except ConfigFault (Option Data) := do
  if !(← (t.hasEntry path).mapError .notReached) then return none
  match t.readBytes path with
  | .error _ => return none
  | .ok bytes => return Toml.read (← (Utf8.decode bytes).mapError .notText)

def ownName : String :=
  ".relaycompiler.toml"

-- The settings of the file that holds nothing else.
def own (t : Tree) (directory : Path) : Except ConfigFault (Option Settings) := do
  match ← document t (directory.child ownName) with
  | none => return none
  | some d => return some (← settingsIn d)

def projectName : String :=
  "pyproject.toml"

-- The settings in the file of a project, under a key of its table of tools.
def project (t : Tree) (directory : Path) : Except ConfigFault (Option Settings) := do
  match ← document t (directory.child projectName) with
  | none => return none
  | some d =>
    let found ← match (d.get? "tool").getD (.table []) with
      | .table tools => .ok ((Data.lookup "relaycompiler" tools).getD .null)
      | tool => .error (.toolNotTable tool)
    if found.holds then return some (← settingsIn found) else return none

end ConfigFile

-- All settings of a project: the file of the project, over it the file of their own, over both
-- the environment.
def Settings.load (t : Tree) (directory : Path) (e : Environment) : Except ConfigFault Settings := do
  let project := (← ConfigFile.project t directory).getD Settings.defaults
  let own := (← ConfigFile.own t directory).getD Settings.defaults
  return ((Settings.defaults.merge project).merge own).merge e.settings

end GraphqlArtifacts
