import GraphqlArtifacts.Schema.Basic

-- The types and directives that each schema has without defining them: scalars, the types that
-- describe a schema, and directives.

namespace GraphqlArtifacts

open Graphql (Value TypeRef)

namespace Schema

def named (name : String) : TypeRef :=
  .named name

def required (name : String) : TypeRef :=
  .nonNull (.named name)

def listOf (name : String) : TypeRef :=
  .list (required name)

-- The argument that asks for deprecated parts too.
def withDeprecated : List Input :=
  [⟨"includeDeprecated", named "Boolean", some (.boolean false)⟩]

def plainField (name : String) (type : TypeRef) : Field :=
  ⟨name, [], type⟩

def standardObject (name : String) (fields : List Field) : NamedType :=
  ⟨name, none, .object [] fields⟩

def standardScalars : List NamedType :=
  ["String", "Int", "Float", "Boolean", "ID"].map fun name => ⟨name, none, .scalar⟩

-- The types of the answers to questions about the schema itself.
def introspectionTypes : List NamedType :=
  [standardObject "__Schema" [
      plainField "description" (named "String"),
      plainField "types" (.nonNull (listOf "__Type")),
      plainField "queryType" (required "__Type"),
      plainField "mutationType" (named "__Type"),
      plainField "subscriptionType" (named "__Type"),
      plainField "directives" (.nonNull (listOf "__Directive"))],
    standardObject "__Directive" [
      plainField "name" (required "String"),
      plainField "description" (named "String"),
      plainField "isRepeatable" (required "Boolean"),
      plainField "locations" (.nonNull (listOf "__DirectiveLocation")),
      ⟨"args", withDeprecated, .nonNull (listOf "__InputValue")⟩],
    ⟨"__DirectiveLocation", none, .enum Graphql.directiveLocations⟩,
    standardObject "__Type" [
      plainField "kind" (required "__TypeKind"),
      plainField "name" (named "String"),
      plainField "description" (named "String"),
      plainField "specifiedByURL" (named "String"),
      ⟨"fields", withDeprecated, listOf "__Field"⟩,
      plainField "interfaces" (listOf "__Type"),
      plainField "possibleTypes" (listOf "__Type"),
      ⟨"enumValues", withDeprecated, listOf "__EnumValue"⟩,
      ⟨"inputFields", withDeprecated, listOf "__InputValue"⟩,
      plainField "ofType" (named "__Type")],
    standardObject "__Field" [
      plainField "name" (required "String"),
      plainField "description" (named "String"),
      ⟨"args", withDeprecated, .nonNull (listOf "__InputValue")⟩,
      plainField "type" (required "__Type"),
      plainField "isDeprecated" (required "Boolean"),
      plainField "deprecationReason" (named "String")],
    standardObject "__InputValue" [
      plainField "name" (required "String"),
      plainField "description" (named "String"),
      plainField "type" (required "__Type"),
      plainField "defaultValue" (named "String"),
      plainField "isDeprecated" (required "Boolean"),
      plainField "deprecationReason" (named "String")],
    standardObject "__EnumValue" [
      plainField "name" (required "String"),
      plainField "description" (named "String"),
      plainField "isDeprecated" (required "Boolean"),
      plainField "deprecationReason" (named "String")],
    ⟨"__TypeKind", none,
      .enum ["SCALAR", "OBJECT", "INTERFACE", "UNION", "ENUM", "INPUT_OBJECT", "LIST", "NON_NULL"]⟩]

def standardTypes : List NamedType :=
  standardScalars ++ introspectionTypes

def isStandardScalar (name : String) : Bool :=
  standardScalars.any (·.name == name)

def isStandard (name : String) : Bool :=
  standardTypes.any (·.name == name)

-- The field that names the type of a value.
def typenameField : Field :=
  plainField "__typename" (required "String")

-- The fields of the query type that describe the schema.
def introspectionFields : List Field :=
  [plainField "__schema" (required "__Schema"),
    ⟨"__type", [⟨"name", required "String", none⟩], named "__Type"⟩]

-- Directives that a schema has if it does not define its own of their names.
def standardDirectives : List DirectiveType :=
  [⟨"include", [⟨"if", required "Boolean", none⟩], false,
      ["FIELD", "FRAGMENT_SPREAD", "INLINE_FRAGMENT"]⟩,
    ⟨"skip", [⟨"if", required "Boolean", none⟩], false,
      ["FIELD", "FRAGMENT_SPREAD", "INLINE_FRAGMENT"]⟩,
    ⟨"deprecated", [⟨"reason", named "String", some (.string "No longer supported" false)⟩], false,
      ["FIELD_DEFINITION", "ARGUMENT_DEFINITION", "INPUT_FIELD_DEFINITION", "ENUM_VALUE"]⟩,
    ⟨"specifiedBy", [⟨"url", required "String", none⟩], false, ["SCALAR"]⟩]

end Schema

end GraphqlArtifacts
