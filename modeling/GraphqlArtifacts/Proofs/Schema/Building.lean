import GraphqlArtifacts.Proofs.Schema.Lawful
import GraphqlArtifacts.Proofs.Schema.Names

-- Building a schema from a document is lawful: the document falls apart into its definitions of
-- directives and all others, and the others do without them.

namespace GraphqlArtifacts

open Graphql (Document Definition DirectiveDefinition InputDefinition TypeDefinition TypeRef)

variable {α : Type} {nameOf : α → String} {a : α} {items more : List α}

namespace Schema

-- The types that a document defines, those of standard names first.
def parted (d : Document) : List TypeDefinition × List TypeDefinition :=
  (d.filterMap typeDefinition?).partition (isStandard ·.name)

def drafts (d : Document) : List Draft :=
  (parted d).2.map <| Draft.ofDefinition (d.filterMap typeExtension?)

def knows (d : Document) (name : String) : Bool :=
  isStandard name || (putAllNamed Draft.name [] (drafts d)).any (·.name == name)

-- The root types of a document, and the types that it makes itself.
def typed (d : Document) : Except SchemaFault (Schema × List NamedType) := do
  for draft in drafts d do
    let _ ← draft.enumValues
  let rooted ← (rootOperations d).foldlM (addRoot (knows d)) empty
  let types ← (putAllNamed Draft.name [] (drafts d)).mapM (Draft.finish (knows d))
  return (rooted, types)

variable {β : Type} {d d' : Document} {s s' rooted : Schema} {x : DirectiveDefinition}
  {known : String → Bool} {types : List NamedType} {directives directives' : List DirectiveType}

end Schema

end GraphqlArtifacts
