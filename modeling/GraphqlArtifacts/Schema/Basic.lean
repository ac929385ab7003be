import GraphqlArtifacts.Data.Basic
import GraphqlArtifacts.Graphql.Document

-- Schemas: named types, directives and the root types of operations. Types refer to each other by
-- name; in a schema that was built, each name that is referred to has a type.

namespace GraphqlArtifacts

open Graphql (Value TypeRef OperationKind)

namespace Graphql.TypeRef

-- The name inside all lists and marks.
def baseName : TypeRef → String
  | .named name => name
  | .list item => item.baseName
  | .nonNull type => type.baseName

def isNonNull : TypeRef → Bool
  | .nonNull _ => true
  | _ => false

-- The type without a mark around it.
def nullable : TypeRef → TypeRef
  | .nonNull type => type
  | type => type

end Graphql.TypeRef

namespace Schema

-- An argument, or a field of an input type. Its default value is one that its type takes.
structure Input where
  name : String
  type : TypeRef
  default : Option Value
  deriving Repr

structure Field where
  name : String
  arguments : List Input
  type : TypeRef
  deriving Repr

-- What a type is made of, by its kind.
inductive Body
  | scalar
  | object (interfaces : List String) (fields : List Field)
  | interface (interfaces : List String) (fields : List Field)
  | union (members : List String)
  | enum (values : List String)
  | input (fields : List Input)
  deriving Repr

structure NamedType where
  name : String
  description : Option String
  body : Body
  deriving Repr

structure DirectiveType where
  name : String
  arguments : List Input
  repeatable : Bool
  locations : List String
  deriving Repr

-- An argument that has to be given.
def Input.isRequired (i : Input) : Bool :=
  i.type.isNonNull && i.default.isNone

namespace NamedType

-- The fields that selections can choose from.
def fields (t : NamedType) : List Field :=
  match t.body with
  | .object _ fields | .interface _ fields => fields
  | _ => []

def field? (t : NamedType) (name : String) : Option Field :=
  t.fields.find? (·.name == name)

def inputs (t : NamedType) : List Input :=
  match t.body with
  | .input fields => fields
  | _ => []

def interfaces (t : NamedType) : List String :=
  match t.body with
  | .object interfaces _ | .interface interfaces _ => interfaces
  | _ => []

def isScalar (t : NamedType) : Bool :=
  match t.body with
  | .scalar => true
  | _ => false

def isEnum (t : NamedType) : Bool :=
  match t.body with
  | .enum _ => true
  | _ => false

def isObject (t : NamedType) : Bool :=
  match t.body with
  | .object .. => true
  | _ => false

def isInterface (t : NamedType) : Bool :=
  match t.body with
  | .interface .. => true
  | _ => false

def isUnion (t : NamedType) : Bool :=
  match t.body with
  | .union _ => true
  | _ => false

def isInputObject (t : NamedType) : Bool :=
  match t.body with
  | .input _ => true
  | _ => false

-- A type without selections below it.
def isLeaf (t : NamedType) : Bool :=
  t.isScalar || t.isEnum

-- A type that selections can be made on.
def isComposite (t : NamedType) : Bool :=
  t.isObject || t.isInterface || t.isUnion

-- A type that other types stand for in a response.
def isAbstract (t : NamedType) : Bool :=
  t.isInterface || t.isUnion

-- A type that variables and arguments can have.
def isInput (t : NamedType) : Bool :=
  t.isScalar || t.isEnum || t.isInputObject

end NamedType

end Schema

structure Schema where
  query : Option String
  mutation : Option String
  subscription : Option String
  types : List Schema.NamedType
  directives : List Schema.DirectiveType
  deriving Repr

namespace Schema

def empty : Schema :=
  ⟨none, none, none, [], []⟩

def type? (s : Schema) (name : String) : Option NamedType :=
  s.types.find? (·.name == name)

def rootName (s : Schema) : OperationKind → Option String
  | .query => s.query
  | .mutation => s.mutation
  | .subscription => s.subscription

def withRoot (s : Schema) (kind : OperationKind) (name : String) : Schema :=
  match kind with
  | .query => { s with query := some name }
  | .mutation => { s with mutation := some name }
  | .subscription => { s with subscription := some name }

-- The type that operations of a kind select on.
def rootType? (s : Schema) (kind : OperationKind) : Option NamedType :=
  (s.rootName kind).bind s.type?

-- A reference as a type of the schema, if its name has one.
def resolves (s : Schema) (type : TypeRef) : Bool :=
  (s.type? type.baseName).isSome

-- The types whose values an abstract type can stand for, and those that refine it.
def isSubtype (s : Schema) (abstract member : NamedType) : Bool :=
  match abstract.body with
  | .union members => members.contains member.name
  | .interface .. => member.interfaces.contains abstract.name && (s.type? member.name).isSome
  | _ => false

-- The object types that an abstract type stands for; of an object type, itself.
def possibleTypes (s : Schema) (t : NamedType) : List NamedType :=
  match t.body with
  | .union members => members.filterMap s.type?
  | .interface .. => s.types.filter fun o => o.isObject && o.interfaces.contains t.name
  | _ => [t]

end Schema

end GraphqlArtifacts
