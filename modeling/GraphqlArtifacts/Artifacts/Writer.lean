import GraphqlArtifacts.Artifacts.Changes
import GraphqlArtifacts.Documents.DocumentFile
import GraphqlArtifacts.Documents.Fragments
import GraphqlArtifacts.Graphql.Printer
import GraphqlArtifacts.Schema.Extension
import GraphqlArtifacts.Text.Md5
import GraphqlArtifacts.Text.Order
import GraphqlArtifacts.Validation.Basic

-- Writing artifacts: one generated module for each operation and fragment of some documents. Other
-- artifacts in the same directories are deleted. A write that only looks for changes writes
-- nothing.

namespace GraphqlArtifacts

open Graphql (Document Definition Operation Fragment)

inductive WriteFault
  | schema (e : SchemaFault)
  | invalid (faults : List ValidationFault)
  | unnamedOperation
  | plugin (e : PluginFailure)
  | read (e : ReadError)
  | file (e : FileError)
  deriving Repr

namespace WriteFault

def message : WriteFault → String
  | .schema e => e.message
  | .invalid faults => "\n".intercalate (faults.map ValidationFault.message)
  | .unnamedOperation => "operations must be named to generate artifacts"
  | .plugin e => e.message
  | .read e => e.message
  | .file e => e.message

def kindName : WriteFault → String
  | .schema (.noPart ..) => "AttributeError"
  | .schema _ => "TypeError"
  | .invalid _ | .unnamedOperation => "CodegenError"
  | .plugin e => e.kindName
  | .read e => e.kindName
  | .file e => e.fault.kindName

end WriteFault

-- What is fixed for all writes of a run.
structure WriterSettings where
  plugin : Plugin
  types : TypeOptions
  outputDirectory : Option Path

-- The documents of one write: those that get artifacts, and those that they refer to.
structure WriterInput where
  schema : Schema
  documents : List DocumentFile
  baseDocuments : List DocumentFile
  deriving Repr

namespace WriterInput

-- All definitions, those of the documents referred to first.
def definitions (i : WriterInput) : Document :=
  (i.baseDocuments ++ i.documents).flatMap (·.document)

def executables (i : WriterInput) : Document :=
  i.definitions.filter (·.isExecutable)

-- The schema with what the documents define and extend.
def extendedSchema (i : WriterInput) : Except SchemaFault Schema :=
  let own := i.definitions.filter fun d => !d.isExecutable
  if own.isEmpty then .ok i.schema else i.schema.extend own

-- The extended schema, if all operations and fragments are valid in it.
def validSchema (i : WriterInput) : Except WriteFault Schema := do
  let s ← i.extendedSchema.mapError .schema
  match Validation.faults s i.executables with
  | [] => return s
  | faults => throw (.invalid faults)

end WriterInput

namespace Artifact

-- The directory for artifacts beside the files that they are made of.
def directoryName : String :=
  "__generated__"

-- The end of the names of all artifacts.
def suffix (plugin : Plugin) : String :=
  ".graphql." ++ plugin.outputExtension

-- Where the artifacts of a file go.
def directory (settings : WriterSettings) (source : Path) : Path :=
  settings.outputDirectory.getD (source.parent.child directoryName)

def path (settings : WriterSettings) (source : Path) (name : String) : Path :=
  (directory settings source).join (name ++ suffix settings.plugin)

-- An operation with the fragments that it reaches, in the order of their names.
def operationText (d : Document) (o : Operation) : String :=
  let reached := (Graphql.reachedFragments d o.selections).mergeSort fun f g => inOrder f.name g.name
  "\n\n".intercalate (o.print :: reached.map Fragment.print)

-- What a module says about a definition, but for its types.
structure Entry where
  name : String
  documentType : String
  text : String
  node : List (String × Data)
  deriving Repr

-- The entry of an operation or fragment. Only named operations have one.
def entry? (d : Document) : Definition → Except WriteFault (Option Entry)
  | .operation o =>
    match o.name with
    | none => .error .unnamedOperation
    | some name =>
      let text := operationText d o
      .ok <| some ⟨name, "ConcreteRequest", text, [("kind", .text "Request"), ("name", .text name),
        ("operationKind", .text o.kind.keyword), ("text", .text text)]⟩
  | .fragment f =>
    let text := f.print
    .ok <| some ⟨f.name, "ReaderFragment", text, [("kind", .text "Fragment"),
      ("name", .text f.name), ("type", .text f.typeCondition), ("text", .text text)]⟩
  | _ => .ok none

-- The name and the text of the artifact of a definition, if it gets one.
def render? (settings : WriterSettings) (s : Schema) (d : Document) (definition : Definition) :
    Except WriteFault (Option (String × String)) := do
  match ← entry? d definition with
  | none => return none
  | some e =>
    let types ← (settings.plugin.generateTypes s settings.types definition).mapError .plugin
    let text ← (settings.plugin.formatModule {
      moduleName := e.name ++ ".graphql"
      documentType := e.documentType
      typeText := types
      sourceHash := Md5.digest (Utf8.encode e.text)
      node := e.node }).mapError .plugin
    return some (e.name, text)

end Artifact

namespace ArtifactWriter

-- Writing changes a tree, also if it fails in the end.
abbrev Write (α : Type) := ExceptT WriteFault (StateM Tree) α

-- The text of an artifact that is there.
def existing? (t : Tree) (p : Path) : Except WriteFault (Option String) := do
  if ← (t.hasEntry p).mapError .file then
    return some (← (t.readText p).mapError .read)
  else
    return none

-- Writes the text of an artifact, with the directories that it needs.
def store (p : Path) (text : String) : Write Unit := do
  let t ← get
  let parent := p.parent
  match t.makeDirectories parent parent.parts.length with
  | .error e => throw (.file e)
  | .ok t =>
    set t
    match t.writeText p text with
    | .error e => throw (.file e)
    | .ok t => set t

-- Writes an artifact unless it has the text already.
def write (onlyValidate : Bool) (p : Path) (text : String) (c : ArtifactChanges) :
    Write ArtifactChanges := do
  let old ← liftM (existing? (← get) p)
  if old = some text then
    return { c with unchanged := c.unchanged ++ [p] }
  else
    if !onlyValidate then store p text
    return match old with
      | none => { c with created := c.created ++ [p] }
      | some _ => { c with updated := c.updated ++ [p] }

-- The artifacts in a directory that were not written, in the order of their names. A directory
-- that is not there has none, but a name that is too long is a fault.
def staleIn (t : Tree) (suffix : String) (written : List Path) (directory : Path) :
    Except FileError (List Path) :=
  match t.walk [] directory.parts with
  | .ok place =>
    if t.get? place = some .directory then
      .ok <| ((sortTexts (t.namesIn place)).map directory.child).filter fun p =>
        !written.contains p && t.isFile p && p.name.endsWith suffix
    else
      .ok []
  | .error .nameTooLong => .error ⟨.nameTooLong, directory⟩
  | .error _ => .ok []

def remove (t : Tree) (p : Path) : Tree :=
  match t.walk [] p.parts with
  | .ok place => t.erase place
  | .error _ => t

-- Deletes the artifacts in a directory that were not written.
def deleteStale (onlyValidate : Bool) (suffix : String) (written : List Path)
    (c : ArtifactChanges) (directory : Path) : Write ArtifactChanges := do
  let stale ← liftM ((staleIn (← get) suffix written directory).mapError WriteFault.file)
  if !onlyValidate then modify fun t => stale.foldl remove t
  return { c with deleted := c.deleted ++ stale }

-- Writes the artifact of a definition and notes its path.
def writeDefinition (settings : WriterSettings) (onlyValidate : Bool) (s : Schema) (d : Document)
    (source : Path) (done : ArtifactChanges × List Path) (definition : Definition) :
    Write (ArtifactChanges × List Path) := do
  match ← liftM (Artifact.render? settings s d definition) with
  | none => return done
  | some (name, text) =>
    let p := Artifact.path settings source name
    return (← write onlyValidate p text done.1, done.2 ++ [p])

-- The directories whose artifacts are looked after, each once and in order.
def directories (settings : WriterSettings) (documents : List DocumentFile) : List Path :=
  let all := settings.outputDirectory.toList ++
    documents.map fun f => Artifact.directory settings f.path
  all.eraseDups.mergeSort Path.le

-- Writes the artifacts of all definitions of the documents, and deletes all others.
def writeAll (settings : WriterSettings) (onlyValidate : Bool) (i : WriterInput) :
    Write ArtifactChanges := do
  let s ← liftM i.validSchema
  let d := i.executables
  let (changes, written) ← i.documents.foldlM
    (fun done file =>
      file.document.foldlM (writeDefinition settings onlyValidate s d file.path) done)
    (ArtifactChanges.none, [])
  (directories settings i.documents).foldlM
    (deleteStale onlyValidate (Artifact.suffix settings.plugin) written) changes

-- The changes of a write, or its fault, and the tree after it.
def run (settings : WriterSettings) (onlyValidate : Bool) (i : WriterInput) (t : Tree) :
    Except WriteFault ArtifactChanges × Tree :=
  (writeAll settings onlyValidate i).run.run t

end ArtifactWriter

end GraphqlArtifacts
