import GraphqlArtifacts.Data.Basic
import GraphqlArtifacts.Files.Path
import GraphqlArtifacts.Glob.Filter

-- What to look for in one set of files, and the same as a condition on a file that a file-watching
-- service can test.

namespace GraphqlArtifacts

-- A set of files: their extensions, the directories to search and the paths to leave out.
structure Search where
  extensions : List String
  includes : List String
  excludes : List String
  deriving DecidableEq, Repr

namespace Search

-- Generated modules carry this mark before their extension.
def artifactPattern : String := "**/*.graphql.*"

-- The sources of the application, never generated modules.
def sources (extensions includes excludes : List String) : Search :=
  { extensions, includes, excludes := artifactPattern :: excludes }

-- Documents in files of their own, never the schema.
def documents (sourceRoot schema : Path) (includes excludes : List String) : Search :=
  { extensions := ["graphql"]
    includes
    excludes := (schema.relativeTo sourceRoot).text :: excludes }

-- The patterns of the files to include: each directory pattern with all extensions.
def filePatterns (s : Search) : List String :=
  let alternatives := "|".intercalate s.extensions
  s.includes.map fun directory => directory ++ "/*.+(" ++ alternatives ++ ")"

def filter (s : Search) : PathFilter :=
  ⟨s.filePatterns, s.excludes⟩

end Search

inductive FileTerm
  | allOf (terms : List FileTerm)
  | anyOf (terms : List FileTerm)
  | not (term : FileTerm)
  | regularFile
  | suffix (extension : String)
  | wholeName (pattern : String)
  deriving Repr

namespace FileTerm

mutual

-- The condition as the service reads it.
def toData : FileTerm → Data
  | .allOf terms => .list (.text "allof" :: listToData terms)
  | .anyOf terms => .list (.text "anyof" :: listToData terms)
  | .not term => .list [.text "not", term.toData]
  | .regularFile => .list [.text "type", .text "f"]
  | .suffix extension => .list [.text "suffix", .text extension]
  | .wholeName pattern => .list [.text "match", .text pattern, .text "wholename"]

def listToData : List FileTerm → List Data
  | [] => []
  | term :: rest => term.toData :: listToData rest

end

end FileTerm

-- The condition on the files of a set.
def Search.term (s : Search) : FileTerm :=
  .allOf ([.regularFile, .anyOf (s.extensions.map .suffix), .anyOf (s.includes.map .wholeName)] ++
    s.excludes.map fun pattern => .not (.wholeName pattern))

end GraphqlArtifacts
