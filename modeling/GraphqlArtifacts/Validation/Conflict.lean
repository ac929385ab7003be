import GraphqlArtifacts.Documents.Fragments
import GraphqlArtifacts.Text.Order
import GraphqlArtifacts.Validation.Fault
import GraphqlArtifacts.Validation.Visit

-- Conflicts between fields with one response name: they must ask for the same thing, unless they
-- can never be answered together. Two fragments are compared once, whatever selections spread them.

namespace GraphqlArtifacts

open Graphql (Document Fragment Selection Argument Value TypeRef)

namespace Conflict

-- A field with the type that it is selected on.
structure Candidate where
  parent : Option Schema.NamedType
  name : String
  arguments : List Argument
  selections : List Selection
  definition : Option Schema.Field
  deriving Repr

-- The fields of some selections by response name, and the fragments spread in them.
structure Group where
  ofFragment : Option String
  fields : List (String × List Candidate)
  spreads : List String
  deriving Repr

namespace Group

def addField (g : Group) (key : String) (c : Candidate) : Group :=
  { g with fields := Data.insert key ((Data.lookup key g.fields).getD [] ++ [c]) g.fields }

def addSpread (g : Group) (name : String) : Group :=
  if g.spreads.contains name then g else { g with spreads := g.spreads ++ [name] }

mutual

def add (s : Schema) (parent : Option Schema.NamedType) (g : Group) : Selection → Group
  | .field renamed name arguments _ selections =>
    g.addField (renamed.getD name)
      ⟨parent, name, arguments, selections, parent.bind (·.field? name)⟩
  | .spread name _ => g.addSpread name
  | .inlineFragment condition _ selections =>
    let type := match condition with
      | some name => s.type? name
      | none => parent
    addAll s type g selections

def addAll (s : Schema) (parent : Option Schema.NamedType) (g : Group) :
    List Selection → Group
  | [] => g
  | selection :: rest => addAll s parent (add s parent g selection) rest

end

def ofSelections (s : Schema) (ofFragment : Option String) (parent : Option Schema.NamedType)
    (selections : List Selection) : Group :=
  addAll s parent ⟨ofFragment, [], []⟩ selections

def ofFragmentNamed (s : Schema) (f : Fragment) : Group :=
  ofSelections s (some f.name) (s.type? f.typeCondition) f.selections

end Group

-- Comparing two fields

mutual

-- A value with the fields of its objects in natural order of their names.
def sortValue : Value → Value
  | .list items => .list (sortItems items)
  | .object fields =>
    .object ((sortFields fields).mergeSort fun (a, _) (b, _) => !Suggestion.naturallyBefore b a)
  | v => v

def sortItems : List Value → List Value
  | [] => []
  | v :: rest => sortValue v :: sortItems rest

def sortFields : List (String × Value) → List (String × Value)
  | [] => []
  | (name, v) :: rest => (name, sortValue v) :: sortFields rest

end

-- Arguments are the same if they are written alike, in whatever order.
def sameArguments (as bs : List Argument) : Bool :=
  let text (xs : List Argument) : String :=
    (sortValue (.object (xs.map fun a => (a.name, a.value)))).print
  text as == text bs

-- Whether answers of two types differ in shape: leaves have to be of one type.
def typesConflict (s : Schema) : TypeRef → TypeRef → Bool
  | .list a, .list b => typesConflict s a b
  | .list _, _ | _, .list _ => true
  | .nonNull a, .nonNull b => typesConflict s a b
  | .nonNull _, _ | _, .nonNull _ => true
  | .named a, .named b =>
    let isLeaf (name : String) : Bool := (s.type? name).any (·.isLeaf)
    (isLeaf a || isLeaf b) && a != b

-- Whether fields of two types are never both answered.
def neverTogether (a b : Option Schema.NamedType) : Bool :=
  match a, b with
  | some a, some b => a.name != b.name && a.isObject && b.isObject
  | _, _ => false

-- Comparing groups

-- The pairs of fragments that were compared, and whether only as fields never answered
-- together.
abbrev Compared := List ((String × String) × Bool)

namespace Compared

def key (a b : String) : String × String :=
  if textBefore a b then (a, b) else (b, a)

-- A pair that was compared as fields answered together need not be compared again.
def has (c : Compared) (a b : String) (exclusive : Bool) : Bool :=
  match c.find? (·.1 == key a b) with
  | none => false
  | some (_, wasExclusive) => exclusive || !wasExclusive

def add (c : Compared) (a b : String) (exclusive : Bool) : Compared :=
  (key a b, exclusive) :: c

end Compared

-- Conflicts are searched for with a record of the fragments compared. The search gives up where
-- fragments spread themselves without end.
abbrev Search (α : Type) := StateT Compared Option α

abbrev Found := List (String × ConflictReason)

-- All that a search finds for some items.
def forAll (items : List α) (search : α → Search Found) : Search Found :=
  items.foldlM (fun found a => do return found ++ (← search a)) []

-- The pairs of an item with a later one.
def pairs : List α → List (α × α)
  | [] => []
  | a :: rest => rest.map (fun b => (a, b)) ++ pairs rest

section

variable (s : Schema) (d : Document)

mutual

def betweenFields (exclusive : Bool) (key : String) (a b : Candidate) :
    Nat → Search Found
  | 0 => fun _ => none
  | fuel + 1 => do
    let exclusive := exclusive || neverTogether a.parent b.parent
    let type := a.definition.map (·.type)
    let other := b.definition.map (·.type)
    let shapeConflict := match type, other with
      | some x, some y => if typesConflict s x y then some (x, y) else none
      | _, _ => none
    if !exclusive && a.name != b.name then
      return [(key, .differentFields a.name b.name)]
    else if !exclusive && !sameArguments a.arguments b.arguments then
      return [(key, .differingArguments)]
    else if let some (x, y) := shapeConflict then
      return [(key, .differingTypes x y)]
    else if a.selections.isEmpty || b.selections.isEmpty then
      return []
    else
      let base (t : Option TypeRef) := t.bind fun t => s.type? t.baseName
      let found ← betweenSelections exclusive
        (Group.ofSelections s none (base type) a.selections)
        (Group.ofSelections s none (base other) b.selections) fuel
      return if found.isEmpty then [] else [(key, .subfields found)]

-- Conflicts between two groups of fields, without the fragments spread in them.
def betweenGroups (exclusive : Bool) (g h : Group) : Nat → Search Found
  | 0 => fun _ => none
  | fuel + 1 =>
    forAll g.fields fun (key, as) =>
      forAll as fun a =>
        forAll ((Data.lookup key h.fields).getD []) fun b =>
          betweenFields exclusive key a b fuel

-- Conflicts between a group and a fragment, with all fragments spread in it.
def betweenGroupAndFragment (exclusive : Bool) (g : Group) (name : String) :
    Nat → Search Found
  | 0 => fun _ => none
  | fuel + 1 =>
    match Graphql.fragment? d name with
    | none => return []
    | some f =>
      if g.ofFragment = some name then
        return []
      else do
        let h := Group.ofFragmentNamed s f
        let found ← betweenGroups exclusive g h fuel
        let more ← forAll h.spreads fun spread => do
          if (← get).has spread name exclusive then
            return []
          else
            modify (·.add spread name exclusive)
            betweenGroupAndFragment exclusive g spread fuel
        return found ++ more

-- Conflicts between two fragments, with all fragments spread in them.
def betweenFragments (exclusive : Bool) (a b : String) : Nat → Search Found
  | 0 => fun _ => none
  | fuel + 1 => do
    if a = b || (← get).has a b exclusive then
      return []
    else
      modify (·.add a b exclusive)
      match Graphql.fragment? d a, Graphql.fragment? d b with
      | some f, some f' =>
        let g := Group.ofFragmentNamed s f
        let h := Group.ofFragmentNamed s f'
        let found ← betweenGroups exclusive g h fuel
        let second ← forAll h.spreads fun spread => betweenFragments exclusive a spread fuel
        let first ← forAll g.spreads fun spread => betweenFragments exclusive spread b fuel
        return found ++ second ++ first
      | _, _ => return []

-- Conflicts between two groups, with all fragments spread in them.
def betweenSelections (exclusive : Bool) (g h : Group) : Nat → Search Found
  | 0 => fun _ => none
  | fuel + 1 => do
    let found ← betweenGroups exclusive g h fuel
    let second ← forAll h.spreads fun name => betweenGroupAndFragment exclusive g name fuel
    let first ← forAll g.spreads fun name => betweenGroupAndFragment exclusive h name fuel
    let across ← forAll g.spreads fun a => forAll h.spreads fun b =>
      betweenFragments exclusive a b fuel
    return found ++ second ++ first ++ across

end

-- Conflicts within one group, and with the fragments spread in it.
def within (g : Group) (fuel : Nat) : Search Found := do
  let found ← forAll g.fields fun (key, cs) =>
    forAll (pairs cs) fun (a, b) => betweenFields s d false key a b fuel
  let spread ← forAll (List.range g.spreads.length) fun i =>
    match g.spreads.drop i with
    | [] => return []
    | name :: later => do
      let direct ← betweenGroupAndFragment s d false g name fuel
      let across ← forAll later fun other => betweenFragments s d false name other fuel
      return direct ++ across
  return found ++ spread

mutual

def sizeOf : Selection → Nat
  | .field _ _ _ _ selections => sizeOfAll selections + 1
  | .spread .. => 1
  | .inlineFragment _ _ selections => sizeOfAll selections + 1

def sizeOfAll : List Selection → Nat
  | [] => 0
  | selection :: rest => sizeOf selection + sizeOfAll rest

end

def sizeOfDefinition : Graphql.Definition → Nat
  | .operation o => sizeOfAll o.selections
  | .fragment f => sizeOfAll f.selections
  | _ => 0

-- How deep a search goes at most, if no fragment spreads itself.
def depthBound : Nat :=
  let size := d.foldl (fun n x => n + sizeOfDefinition x + 1) 1
  4 * size * size

end

end Conflict

end GraphqlArtifacts
