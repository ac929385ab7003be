import GraphqlArtifacts.Files.Tree
import GraphqlArtifacts.Graphql.Parser
import GraphqlArtifacts.Language.Plugin

-- Files that hold documents: sources with documents embedded in them, and files that are a document
-- as a whole. A file without documents gives none.

namespace GraphqlArtifacts

structure DocumentFile where
  path : Path
  document : Graphql.Document
  deriving Repr

-- Why the documents of a file cannot be had. Files are named from the base directory.
inductive DocumentFault
  | unreadable (file : String) (e : ReadError)
  | tag (file : String) (line : Nat) (e : Graphql.SyntaxError)
  | document (file : String) (e : Graphql.SyntaxError)
  | plugin (e : PluginFailure)
  deriving DecidableEq, Repr

def DocumentFault.message : DocumentFault → String
  | .unreadable file e => s!"unable to read {file}: {e.message}"
  | .tag file line e => s!"{file}:{line}: {e.message}"
  | .document file e => s!"{file}: {e.message}"
  | .plugin e => e.message

def DocumentFault.kindName : DocumentFault → String
  | .plugin e => e.kindName
  | _ => "CodegenError"

-- How the documents of a file are found in its text.
inductive DocumentReader
  | sources (findTags : String → Except PluginFailure (List Tag))
  | documents

namespace DocumentReader

-- The definitions of several tags, one after the other.
def definitionsOfTags (file : String) : List Tag → Except DocumentFault Graphql.Document
  | [] => .ok []
  | tag :: rest => do
    let first ← (Graphql.parse tag.template).mapError (.tag file tag.line)
    let later ← definitionsOfTags file rest
    return first ++ later

-- The definitions in the text of a file, if it has documents.
def definitions? (r : DocumentReader) (file text : String) :
    Except DocumentFault (Option Graphql.Document) :=
  match r with
  | .sources findTags => do
    let tags ← (findTags text).mapError .plugin
    if tags.isEmpty then return none
    return some (← definitionsOfTags file tags)
  | .documents => do
    if (trimBlank text.toList).isEmpty then return none
    return some (← (Graphql.parse text).mapError (.document file))

-- The documents of a file, given by its path from a base directory.
def parseFile (r : DocumentReader) (t : Tree) (base : Path) (file : String) :
    Except DocumentFault (Option DocumentFile) := do
  let path := base.join file
  let text ← (t.readText path).mapError (.unreadable file)
  return (← r.definitions? file text).map (⟨path, ·⟩)

def parseAll (r : DocumentReader) (t : Tree) (base : Path) (files : List String) :
    Except DocumentFault (List DocumentFile) :=
  files.filterMapM (r.parseFile t base)

end DocumentReader

-- Whether a source can have tags at all: its text holds their word.
def mentionsTags (t : Tree) (base : Path) (file : String) : Bool :=
  match t.readText (base.join file) with
  | .ok text => holdsText Tag.word text.toList
  | .error _ => false

end GraphqlArtifacts
