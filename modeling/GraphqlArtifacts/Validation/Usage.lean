import GraphqlArtifacts.Documents.Fragments
import GraphqlArtifacts.Validation.Visit

-- The variables that an operation uses, in its own selections and in all fragments that it reaches,
-- and whether a variable can stand where it is used.

namespace GraphqlArtifacts

open Graphql (Document Operation Fragment Value TypeRef)

-- A use of a variable, and what is expected where it is used.
structure Usage where
  name : String
  expected : Expected
  deriving Repr

namespace Usage

def ofVisits (visits : List Visit) : List Usage :=
  visits.filterMap fun
    | .variable name expected => some ⟨name, expected⟩
    | _ => none

-- The uses of variables that an operation reaches.
def ofOperation (s : Schema) (d : Document) (o : Operation) : List Usage :=
  ofVisits (Visit.ofOperation s [] o) ++
    (Graphql.reachedFragments d o.selections).flatMap fun f =>
      ofVisits (Visit.ofFragment s [] false f)

end Usage

namespace Schema

-- Whether values of one type are values of another.
def isSubtypeRef (s : Schema) : TypeRef → TypeRef → Bool
  | .nonNull a, .nonNull b => isSubtypeRef s a b
  | _, .nonNull _ => false
  | .nonNull a, b => isSubtypeRef s a b
  | .list a, .list b => isSubtypeRef s a b
  | .named _, .list _ => false
  | .list _, .named _ => false
  | .named a, .named b =>
    a == b ||
      match s.type? a, s.type? b with
      | some t, some u => u.isAbstract && (t.isObject || t.isInterface) && s.isSubtype u t
      | _, _ => false

-- Whether a variable of a type can stand where another type is expected. A default value on either
-- side makes up for a type that can be null.
def allowsUsage (s : Schema) (type : TypeRef) (default : Option Value) (wanted : TypeRef)
    (hasDefault : Bool) : Bool :=
  match wanted with
  | .nonNull inner =>
    if type.isNonNull then
      s.isSubtypeRef type wanted
    else
      let hasOwnDefault := match default with
        | none | some .null => false
        | some _ => true
      (hasOwnDefault || hasDefault) && s.isSubtypeRef type inner
  | wanted => s.isSubtypeRef type wanted

end Schema

end GraphqlArtifacts
