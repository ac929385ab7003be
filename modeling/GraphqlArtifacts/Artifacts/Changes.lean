import GraphqlArtifacts.Files.Path

-- What a write did to artifacts, or would do: the paths in the order in which they were met.

namespace GraphqlArtifacts

structure ArtifactChanges where
  created : List Path
  updated : List Path
  deleted : List Path
  unchanged : List Path
  deriving DecidableEq, Repr

namespace ArtifactChanges

def none : ArtifactChanges :=
  ⟨[], [], [], []⟩

def hasChanges (c : ArtifactChanges) : Bool :=
  !(c.created.isEmpty && c.updated.isEmpty && c.deleted.isEmpty)

-- The names of some paths, one a line, under what was done to them.
def listing (verb : String) (paths : List Path) : List String :=
  if paths.isEmpty then []
  else [verb ++ ":\n" ++ "\n".intercalate (paths.map fun p => " - " ++ p.name)]

-- The messages about changes, which are only pending if nothing was written.
def messages (c : ArtifactChanges) (pending : Bool) : List String :=
  let verb (done would : String) : String := if pending then would else done
  let count := c.unchanged.length
  listing (verb "Created" "Would create") c.created ++
    listing (verb "Updated" "Would update") c.updated ++
    listing (verb "Deleted" "Would delete") c.deleted ++
    if count = 0 then []
    else ["Unchanged: " ++ toString count ++ " file" ++ if count = 1 then "" else "s"]

end ArtifactChanges

end GraphqlArtifacts
