import GraphqlArtifacts.Validation.Rules

-- Validation of documents against a schema: all faults, in the order in which a walk through the
-- documents meets them.

namespace GraphqlArtifacts

open Graphql (Document)

namespace Validation

-- The faults at some visits. What was compared for conflicts is carried from one to the next.
def faultsAt (s : Schema) (d : Document) : Conflict.Compared → List Visit → List ValidationFault
  | _, [] => []
  | compared, .selections ofFragment parent selections :: rest =>
    let group := Conflict.Group.ofSelections s ofFragment parent selections
    match (Conflict.within s d group (Conflict.depthBound d)).run compared with
    | some (found, compared) =>
      found.map (fun (name, reason) => .conflictingFields name reason) ++
        faultsAt s d compared rest
    | none => faultsAt s d compared rest
  | compared, v :: rest => v.faults s d ++ faultsAt s d compared rest

def allFaults (s : Schema) (d : Document) : List ValidationFault :=
  faultsAt s d [] (Visit.ofDocument s d)

-- The most faults that are told.
def maxFaults : Nat := 100

-- The faults of documents that are told.
def faults (s : Schema) (d : Document) : List ValidationFault :=
  let found := allFaults s d
  if maxFaults < found.length then found.take maxFaults ++ [.tooMany] else found

end Validation

end GraphqlArtifacts
