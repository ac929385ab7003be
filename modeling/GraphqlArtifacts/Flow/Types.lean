import GraphqlArtifacts.Flow.Shape
import GraphqlArtifacts.Language.Plugin
import GraphqlArtifacts.Text.Order

-- Flow types of operations and fragments: an exact object type for each set of selections, with one
-- member for each response key, and for the variables of an operation.

namespace GraphqlArtifacts

open Graphql (TypeRef Selection Operation Fragment VariableDefinition Definition)

namespace Flow

-- A type around the type of its name: nullable at each level without a mark.
def wrapped (leaf : Shape) : TypeRef → Shape
  | .nonNull type => bare leaf type
  | type => .nullable (bare leaf type)
where
  -- A type that is not nullable itself.
  bare (leaf : Shape) : TypeRef → Shape
  | .named _ => leaf
  | .list (.nonNull item) => .array (bare leaf item)
  | .list item => .array (.nullable (bare leaf item))
  | .nonNull type => bare leaf type

def scalarTypes : List (String × String) :=
  [("ID", "string"), ("String", "string"), ("Int", "number"), ("Float", "number"),
    ("Boolean", "boolean")]

def futureEnumValue : String :=
  "'%future added value'"

-- The type of a scalar or an enum; nothing is known of other types without selections.
def leafShape (options : TypeOptions) (type : Option Schema.NamedType) : Shape :=
  match type with
  | none => .leaf "any"
  | some t =>
    match t.body with
    | .enum values =>
      let members := (sortTexts values).map fun value => s!"'{value}'"
      .leaf (" | ".intercalate
        (members ++ if options.noFutureProofEnums then [] else [futureEnumValue]))
    | .scalar =>
      .leaf (((Data.lookup t.name options.customScalars).orElse
        fun _ => Data.lookup t.name scalarTypes).getD "any")
    | _ => .leaf "any"

-- Variables

-- A named type that variables can have. An input type inside itself is any value. The fuel bounds
-- the number of input types around it.
def inputShape (s : Schema) (options : TypeOptions) : Nat → List String → String → Shape
  | 0, _, _ => .leaf "any"
  | fuel + 1, seen, name =>
    match s.type? name with
    | some ⟨_, _, .input fields⟩ =>
      if seen.contains name then
        .leaf "any"
      else
        let member (f : Schema.Input) : MemberName × Shape :=
          (.input f.name !f.type.isNonNull,
            wrapped (inputShape s options fuel (name :: seen) f.type.baseName) f.type)
        .object (fields.map member)
    | type => leafShape options type

def variableMember (s : Schema) (options : TypeOptions) (v : VariableDefinition) :
    Except PluginFailure (MemberName × Shape) :=
  if s.resolves v.type then
    let shape := inputShape s options (s.types.length + 1) [] v.type.baseName
    .ok (.input v.name !v.type.isNonNull, wrapped shape v.type)
  else
    .error (.unknownVariableType v.name)

-- Selections

-- A member for a response key.
structure Response where
  key : String
  isOptional : Bool
  shape : Shape
  deriving Repr

-- The members that selections give to an object type, and the fragments spread in them.
structure Members where
  responses : List Response
  spreads : List String
  deriving Repr

namespace Members

def empty : Members :=
  ⟨[], []⟩

-- The members with one more, unless there is one for the key already.
def withResponse (m : Members) (r : Response) : Members :=
  if m.responses.any (·.key == r.key) then m else { m with responses := m.responses ++ [r] }

def withSpread (m : Members) (name : String) : Members :=
  { m with spreads := m.spreads ++ [name] }

def named (m : Members) : List (MemberName × Shape) :=
  m.responses.map (fun r => (.response r.key r.isOptional, r.shape)) ++
    if m.spreads.isEmpty then []
    else [(.mark "fragmentRefs", .leaf (" & ".intercalate (m.spreads.map (· ++ "$ref"))))]

end Members

-- The type that the selections in a fragment are made on.
def conditionType (s : Schema) (parent : Option Schema.NamedType) :
    Option String → Option Schema.NamedType
  | some name => s.type? name
  | none => parent

def sameType (a b : Option Schema.NamedType) : Bool :=
  a.map (·.name) == b.map (·.name)

mutual

-- The members with that of a selection on a type. Below a fragment on another type members are
-- optional.
def addSelection (s : Schema) (options : TypeOptions) (parent : Option Schema.NamedType)
    (isOptional : Bool) (m : Members) : Selection → Members
  | .field renamed name _ _ selections =>
    let shape :=
      if name = "__typename" then
        .leaf "string"
      else
        match parent.bind (·.field? name) with
        | none => .leaf "any"
        | some f =>
          let type := s.type? f.type.baseName
          let leaf :=
            if selections.isEmpty then leafShape options type
            else .object (addSelections s options type false Members.empty selections).named
          wrapped leaf f.type
    m.withResponse ⟨renamed.getD name, isOptional, shape⟩
  | .inlineFragment condition _ selections =>
    let type := conditionType s parent condition
    addSelections s options type (isOptional || !sameType type parent) m selections
  | .spread name _ => m.withSpread name

def addSelections (s : Schema) (options : TypeOptions) (parent : Option Schema.NamedType)
    (isOptional : Bool) (m : Members) : List Selection → Members
  | [] => m
  | selection :: rest =>
    addSelections s options parent isOptional
      (addSelection s options parent isOptional m selection) rest

end

-- The members that the selections of a definition give to its type.
def membersOf (s : Schema) (options : TypeOptions) (parent : Option Schema.NamedType)
    (selections : List Selection) : List (MemberName × Shape) :=
  (addSelections s options parent false Members.empty selections).named

-- Definitions

def fragmentShape (s : Schema) (options : TypeOptions) (f : Fragment) : Shape :=
  .object (membersOf s options (s.type? f.typeCondition) f.selections ++
    [(.mark "refType", .leaf s!"{f.name}$ref")])

def responseShape (s : Schema) (options : TypeOptions) (o : Operation) : Shape :=
  .object (membersOf s options (s.rootType? o.kind) o.selections)

def declaration (name : String) (shape : Shape) : String :=
  s!"export type {name} = {shape.print 0};"

def fragmentTypes (s : Schema) (options : TypeOptions) (f : Fragment) : String :=
  "import type \x7b FragmentReference \x7d from 'relay-runtime';\n" ++
    s!"declare export opaque type {f.name}$ref: FragmentReference;\n" ++
    declaration f.name (fragmentShape s options f)

def operationTypes (s : Schema) (options : TypeOptions) (name : String) (o : Operation) :
    Except PluginFailure String := do
  let members ← o.variableDefinitions.mapM (variableMember s options)
  return declaration s!"{name}Variables" (.object members) ++ "\n" ++
    declaration s!"{name}Response" (responseShape s options o) ++ "\n" ++
    s!"export type {name} = \x7b|\n  variables: {name}Variables,\n" ++
    s!"  response: {name}Response,\n|\x7d;"

-- The types of a definition: only fragments and operations with names have any.
def types (s : Schema) (options : TypeOptions) : Definition → Except PluginFailure String
  | .fragment f => .ok (fragmentTypes s options f)
  | .operation o =>
    match o.name with
    | some name => operationTypes s options name o
    | none => .error .untypedDefinition
  | _ => .error .untypedDefinition

end Flow

end GraphqlArtifacts
