import GraphqlArtifacts.Graphql.Document

-- The fragments that selections spread, directly and through other fragments.

namespace GraphqlArtifacts

open Graphql (Document Definition Fragment Selection)

namespace Graphql

-- The fragment that a name stands for: the last one of the name.
def fragment? (d : Document) (name : String) : Option Fragment :=
  (d.filterMap Definition.fragment?).reverse.find? (·.name == name)

-- The names spread by some selections, before those spread below them.
def joinSpreads (spreads : List String × List String) : List String :=
  spreads.1 ++ spreads.2

mutual

-- The names spread right here, and those spread below.
def Selection.spreads : Selection → List String × List String
  | .field _ _ _ _ selections => ([], joinSpreads (splitSpreads selections))
  | .inlineFragment _ _ selections => ([], joinSpreads (splitSpreads selections))
  | .spread name _ => ([name], [])

-- The names spread by the selections themselves, and those spread below them.
def splitSpreads : List Selection → List String × List String
  | [] => ([], [])
  | selection :: rest =>
    let (here, below) := selection.spreads
    let (laterHere, laterBelow) := splitSpreads rest
    (here ++ laterHere, laterBelow ++ below)

end

-- The names that some selections spread: first those of the selections themselves, then those
-- below the last selection, and so on back to the first.
def spreadsIn (selections : List Selection) : List String :=
  joinSpreads (splitSpreads selections)

-- Fragments are followed with the names still to follow, the last ones first. The fuel bounds
-- the number of fragments.
def reachedFrom (d : Document) : Nat → List String → List (List Selection) → List Fragment
  | 0, _, _ => []
  | _, _, [] => []
  | fuel + 1, seen, selections :: pending =>
    let fresh := (spreadsIn selections).eraseDups.filter (!seen.contains ·)
    let found := fresh.filterMap (fragment? d)
    found ++ reachedFrom d fuel (seen ++ fresh) ((found.map (·.selections)).reverse ++ pending)

-- The fragments that selections reach, each once, in the order in which they are found.
def reachedFragments (d : Document) (selections : List Selection) : List Fragment :=
  reachedFrom d ((d.filterMap Definition.fragment?).length + 1) [] [selections]

end Graphql

end GraphqlArtifacts
