import GraphqlArtifacts.Schema.Standard

-- A walk through documents: what is met, in order, and the types that the schema gives to it. Rules
-- look at one visit at a time.

namespace GraphqlArtifacts

open Graphql (Document Definition Operation Fragment VariableDefinition Selection Directive Argument
  Value TypeRef OperationKind)

namespace Schema

-- The type of a reference, if its name has one that variables and arguments can have.
def inputType? (s : Schema) (type : TypeRef) : Option TypeRef :=
  if (s.type? type.baseName).any (·.isInput) then some type else none

-- The field that a selection on a type asks for.
def selectedField? (s : Schema) (parent : NamedType) (name : String) : Option Field :=
  let introspection := introspectionFields.find? (·.name == name)
  if introspection.isSome && s.query == some parent.name then introspection
  else if name = typenameField.name ∧ parent.isComposite then some typenameField
  else parent.field? name

-- A type that selections can be made on, by its name.
def compositeType? (s : Schema) (name : String) : Option NamedType :=
  (s.type? name).filter (·.isComposite)

end Schema

-- What a place in a document expects to find there.
structure Expected where
  type : Option TypeRef
  hasDefault : Bool
  deriving Repr

-- The place of a field among the selections of a type.
structure FieldPlace where
  parent : Option Schema.NamedType
  definition : Option Schema.Field
  name : String
  arguments : List Argument
  hasSelections : Bool
  deriving Repr

-- What is met on a walk. Values below one that is refused as a whole are silent.
inductive Visit
  | operation (earlier : List Definition) (o : Operation)
  | operationEnd (o : Operation)
  | fragment (earlier : List Definition) (f : Fragment)
  | variableDefinition (v : VariableDefinition)
  | typeName (name : String)
  | directives (ds : List Directive)
  | selections (ofFragment : Option String) (parent : Option Schema.NamedType)
      (selections : List Selection)
  | field (place : FieldPlace)
  | fieldArguments (arguments : List Argument)
  | fieldEnd (place : FieldPlace)
  | spread (parent : Option Schema.NamedType) (name : String)
  | inlineFragment (parent type : Option Schema.NamedType) (condition : Option String)
  | directive (place : String) (d : Directive)
  | directiveEnd (d : Directive)
  | argument (place : FieldPlace) (name : String)
  | value (silent : Bool) (type : Option TypeRef) (v : Value)
  | inputField (silent : Bool) (object : Option Schema.NamedType) (known repeated : Bool)
      (name : String)
  | variable (name : String) (expected : Expected)
  deriving Repr

namespace Visit

section

variable (s : Schema)

mutual

def ofValue (silent : Bool) (expected : Expected) : Value → List Visit
  | .variable name => [.variable name expected]
  | .list items =>
    match expected.type.map TypeRef.nullable with
    | some (.list item) => ofItems silent ⟨s.inputType? item, false⟩ items
    | type => .value silent type (.list items) :: ofItems true ⟨type, false⟩ items
  | .object fields =>
    let object := (expected.type.bind fun type => s.type? type.baseName).filter (·.isInputObject)
    .value silent expected.type (.object fields) ::
      ofFields (silent || object.isNone) object [] fields
  | v => [.value silent expected.type v]

def ofItems (silent : Bool) (expected : Expected) : List Value → List Visit
  | [] => []
  | v :: rest => ofValue silent expected v ++ ofItems silent expected rest

def ofFields (silent : Bool) (object : Option Schema.NamedType) (earlier : List String) :
    List (String × Value) → List Visit
  | [] => []
  | (name, v) :: rest =>
    let input := (object.map (·.inputs)).bind fun inputs => inputs.find? (·.name == name)
    let type := input.bind fun i => s.inputType? i.type
    .inputField silent object type.isSome (earlier.contains name) name ::
      ofValue silent ⟨type, input.any (·.default.isSome)⟩ v ++
        ofFields silent object (name :: earlier) rest

end

-- A walk through an argument, given the arguments that there are.
def ofArgument (known : List Schema.Input) (a : Argument) : List Visit :=
  let input := known.find? (·.name == a.name)
  ofValue s false ⟨input.bind fun i => s.inputType? i.type, input.any (·.default.isSome)⟩ a.value

-- The arguments that a directive takes; of an unknown one, those of the field around it.
def directiveInputs (around : Option Schema.Field) (name : String) : List Schema.Input :=
  match s.directives.find? (·.name == name) with
  | some d => d.arguments
  | none => (around.map (·.arguments)).getD []

def ofDirective (place : String) (around : Option Schema.Field) (d : Directive) : List Visit :=
  .directive place d ::
    d.arguments.flatMap (ofArgument s (directiveInputs s around d.name)) ++ [.directiveEnd d]

def ofDirectives (place : String) (around : Option Schema.Field) (ds : List Directive) :
    List Visit :=
  ds.flatMap (ofDirective s place around)

def ofVariableDefinition (v : VariableDefinition) : List Visit :=
  let value := v.defaultValue.map fun value => ofValue s false ⟨s.inputType? v.type, false⟩ value
  .variableDefinition v :: .directives v.directives :: .typeName v.type.baseName ::
    value.getD [] ++ ofDirectives s "variable definition" none v.directives

mutual

-- A walk through a selection on a type, inside a field.
def ofSelection (parent : Option Schema.NamedType) (around : Option Schema.Field) :
    Selection → List Visit
  | .field _ name arguments ds inner =>
    let definition := parent.bind fun p => s.selectedField? p name
    let place : FieldPlace := ⟨parent, definition, name, arguments, !inner.isEmpty⟩
    let known := (definition.map (·.arguments)).getD []
    let type := definition.bind fun f => s.compositeType? f.type.baseName
    .field place :: .directives ds :: .fieldArguments arguments ::
      arguments.flatMap (fun a => .argument place a.name :: ofArgument s known a) ++
      ofDirectives s "field" definition ds ++
      (if inner.isEmpty then [] else .selections none type inner ::
        ofSelections type definition inner) ++
      [.fieldEnd place]
  | .spread name ds =>
    .spread parent name :: .directives ds ::
      ofDirectives s "fragment spread" around ds
  | .inlineFragment condition ds inner =>
    let type := match condition with
      | some name => s.compositeType? name
      | none => parent
    .inlineFragment parent type condition :: .directives ds ::
      (condition.map Visit.typeName).toList ++
      ofDirectives s "inline fragment" around ds ++
      .selections none type inner :: ofSelections type around inner

def ofSelections (parent : Option Schema.NamedType) (around : Option Schema.Field) :
    List Selection → List Visit
  | [] => []
  | selection :: rest => ofSelection parent around selection ++ ofSelections parent around rest

end

def ofOperation (earlier : List Definition) (o : Operation) : List Visit :=
  let root := (s.rootType? o.kind).filter (·.isObject)
  .operation earlier o :: .directives o.directives ::
    o.variableDefinitions.flatMap (ofVariableDefinition s) ++
    ofDirectives s o.kind.keyword none o.directives ++
    .selections none root o.selections :: ofSelections s root none o.selections ++
    [.operationEnd o]

-- A walk through a fragment, which is perhaps the one that its name stands for.
def ofFragment (earlier : List Definition) (isNamed : Bool) (f : Fragment) : List Visit :=
  let type := s.compositeType? f.typeCondition
  .fragment earlier f :: .directives f.directives :: .typeName f.typeCondition ::
    ofDirectives s "fragment definition" none f.directives ++
    .selections (if isNamed then some f.name else none) type f.selections ::
      ofSelections s type none f.selections

def ofDefinitions (earlier : List Definition) : List Definition → List Visit
  | [] => []
  | d :: rest =>
    let here := match d with
      | .operation o => ofOperation s earlier o
      | .fragment f =>
        let isNamed := !(rest.filterMap Definition.fragment?).any (·.name == f.name)
        ofFragment s earlier isNamed f
      | _ => []
    here ++ ofDefinitions (earlier ++ [d]) rest

def ofDocument (d : Document) : List Visit :=
  ofDefinitions s [] d

end

end Visit

end GraphqlArtifacts
