-- Documents: operations and fragments, the definitions of a schema, and extensions of one.

namespace GraphqlArtifacts

namespace Graphql

-- A value as it is written in a document. Numbers keep their text.
inductive Value
  | variable (name : String)
  | int (text : String)
  | float (text : String)
  | string (value : String) (block : Bool)
  | boolean (b : Bool)
  | null
  | enum (name : String)
  | list (items : List Value)
  | object (fields : List (String × Value))
  deriving Repr, Inhabited

inductive TypeRef
  | named (name : String)
  | list (item : TypeRef)
  | nonNull (type : TypeRef)
  deriving DecidableEq, Repr, Inhabited

structure Argument where
  name : String
  value : Value
  deriving Repr

structure Directive where
  name : String
  arguments : List Argument
  deriving Repr

inductive OperationKind
  | query
  | mutation
  | subscription
  deriving DecidableEq, Repr

def OperationKind.keyword : OperationKind → String
  | .query => "query"
  | .mutation => "mutation"
  | .subscription => "subscription"

def OperationKind.all : List OperationKind :=
  [.query, .mutation, .subscription]

structure VariableDefinition where
  name : String
  type : TypeRef
  defaultValue : Option Value
  directives : List Directive
  deriving Repr

-- A selection. A field without selections of its own has none: braces are never empty.
inductive Selection
  | field (renamed : Option String) (name : String) (arguments : List Argument)
      (directives : List Directive) (selections : List Selection)
  | spread (name : String) (directives : List Directive)
  | inlineFragment (typeCondition : Option String) (directives : List Directive)
      (selections : List Selection)
  deriving Repr, Inhabited

structure Operation where
  kind : OperationKind
  name : Option String
  variableDefinitions : List VariableDefinition
  directives : List Directive
  selections : List Selection
  deriving Repr

structure Fragment where
  name : String
  typeCondition : String
  directives : List Directive
  selections : List Selection
  deriving Repr

-- A description, written as a string or as a block.
structure Description where
  value : String
  block : Bool
  deriving DecidableEq, Repr

-- An argument of a field or directive, or a field of an input type.
structure InputDefinition where
  description : Option Description
  name : String
  type : TypeRef
  defaultValue : Option Value
  directives : List Directive
  deriving Repr

structure FieldDefinition where
  description : Option Description
  name : String
  arguments : List InputDefinition
  type : TypeRef
  directives : List Directive
  deriving Repr

structure EnumValueDefinition where
  description : Option Description
  name : String
  directives : List Directive
  deriving Repr

-- What the definition of a type says, by the kind of the type.
inductive TypeBody
  | scalar
  | object (interfaces : List String) (fields : List FieldDefinition)
  | interface (interfaces : List String) (fields : List FieldDefinition)
  | union (members : List String)
  | enum (values : List EnumValueDefinition)
  | input (fields : List InputDefinition)
  deriving Repr

structure TypeDefinition where
  description : Option Description
  name : String
  directives : List Directive
  body : TypeBody
  deriving Repr

structure RootOperation where
  kind : OperationKind
  type : String
  deriving DecidableEq, Repr

structure DirectiveDefinition where
  description : Option Description
  name : String
  arguments : List InputDefinition
  repeatable : Bool
  locations : List String
  deriving Repr

inductive Definition
  | operation (o : Operation)
  | fragment (f : Fragment)
  | schema (description : Option Description) (directives : List Directive)
      (roots : List RootOperation)
  | type (t : TypeDefinition)
  | directive (d : DirectiveDefinition)
  | schemaExtension (directives : List Directive) (roots : List RootOperation)
  | typeExtension (t : TypeDefinition)
  deriving Repr

abbrev Document := List Definition

namespace Definition

-- Whether a definition is an operation or a fragment.
def isExecutable : Definition → Bool
  | .operation _ | .fragment _ => true
  | _ => false

def operation? : Definition → Option Operation
  | .operation o => some o
  | _ => none

def fragment? : Definition → Option Fragment
  | .fragment f => some f
  | _ => none

end Definition

def directiveLocations : List String :=
  ["QUERY", "MUTATION", "SUBSCRIPTION", "FIELD", "FRAGMENT_DEFINITION", "FRAGMENT_SPREAD",
    "INLINE_FRAGMENT", "VARIABLE_DEFINITION", "SCHEMA", "SCALAR", "OBJECT", "FIELD_DEFINITION",
    "ARGUMENT_DEFINITION", "INTERFACE", "UNION", "ENUM", "ENUM_VALUE", "INPUT_OBJECT",
    "INPUT_FIELD_DEFINITION"]

end Graphql

end GraphqlArtifacts
