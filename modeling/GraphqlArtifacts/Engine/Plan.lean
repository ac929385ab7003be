import GraphqlArtifacts.Artifacts.Writer
import GraphqlArtifacts.Run.ConfigurationError

-- What a run compiles: named sets of files that are parsed, and named outputs that are written from
-- the documents of one set. An output may refer to the documents of other sets.

namespace GraphqlArtifacts

-- A set of files: those named, or those that an expression of the watch service accepts.
structure FileSet where
  base : Path
  reader : DocumentReader
  schema : Schema
  -- Whether files that cannot have tags are left out before they are parsed.
  onlyMentioning : Bool
  files : Option (List String)
  expression : Option Data

-- An output: the set that it is written from, and those that it refers to.
structure Output where
  writer : WriterSettings
  isGenerated : String → Bool
  fileSet : String
  baseSets : List String

namespace Output

-- The sets that the output depends on.
def sets (o : Output) : List String :=
  o.fileSet :: o.baseSets

end Output

structure Plan where
  fileSets : List (String × FileSet)
  outputs : List (String × Output)
  onlyValidate : Bool
  -- Whether the watch service can be asked.
  hasService : Bool

namespace Plan

def checkSets (p : Plan) (output : String) : List String → Except ConfigurationError Unit
  | [] => .ok ()
  | name :: rest =>
    if (Data.lookup name p.fileSets).isSome then p.checkSets output rest
    else .error (.unknownParser output name)

def checkOutputs (p : Plan) : List (String × Output) → Except ConfigurationError Unit
  | [] => .ok ()
  | (name, o) :: rest => do
    p.checkSets name o.sets
    if o.fileSet ∈ o.baseSets then throw (.ownBaseParser name o.fileSet)
    p.checkOutputs rest

-- Each output depends on sets that are there, and does not refer to its own.
def check (p : Plan) : Except ConfigurationError Unit :=
  p.checkOutputs p.outputs

-- Whether an output generates a file.
def generates (p : Plan) (file : String) : Bool :=
  p.outputs.any fun (_, o) => o.isGenerated file

end Plan

end GraphqlArtifacts
