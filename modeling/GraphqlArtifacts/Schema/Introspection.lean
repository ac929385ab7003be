import GraphqlArtifacts.Data.Brief
import GraphqlArtifacts.Graphql.Parser
import GraphqlArtifacts.Graphql.Printer
import GraphqlArtifacts.Schema.Standard

-- The answer that a server gives when asked for its schema, as the definitions that it stands for.
-- Standard types and directives are left out, and root types that have their usual names.

namespace GraphqlArtifacts

open Graphql (Definition Document TypeRef TypeBody TypeDefinition FieldDefinition InputDefinition
  EnumValueDefinition DirectiveDefinition Description RootOperation)

-- Why an answer is no schema. Values are kept in the form in which messages show them.
inductive IntrospectionFault
  | noAttribute (kind wanted : String)
  | noItem (kind : String)
  | notIterable (kind : String)
  | missingKey (key : String)
  | noSchema (shown : String)
  | noType (shown : String)
  | noTypeName (shown : String)
  | unknownType (name : String)
  | tooDeep
  | missingPart (part shown : String)
  | notOutput (shown : String)
  | notInput (place shown : String)
  | notKind (shown kind : String)
  | noName
  | nameNotText
  | emptyName
  | nameCharacter (shown : String)
  | nameStart (shown : String)
  | reservedValue (name : String)
  | defaultValue (report : String)
  | unresolved (type part : String) (cause : IntrospectionFault)
  deriving DecidableEq, Repr

namespace IntrospectionFault

def message : IntrospectionFault → String
  | .noAttribute kind wanted => s!"'{kind}' object has no attribute '{wanted}'"
  | .noItem "list" => "list indices must be integers or slices, not str"
  | .noItem "str" => "string indices must be integers, not 'str'"
  | .noItem kind => s!"'{kind}' object is not subscriptable"
  | .notIterable kind => s!"'{kind}' object is not iterable"
  | .missingKey key => quoted key
  | .noSchema shown =>
    "Invalid or incomplete introspection result. Ensure that you are passing the 'data' attribute " ++
      s!"of an introspection response and no 'errors' were returned alongside: {shown}."
  | .noType shown =>
    "Invalid or incomplete introspection result. Ensure that a full introspection query is used " ++
      s!"in order to build a client schema: {shown}."
  | .noTypeName shown => s!"Unknown type reference: {shown}."
  | .unknownType name =>
    s!"Invalid or incomplete schema, unknown type: {name}. Ensure that a full introspection " ++
      "query is used in order to build a client schema."
  | .tooDeep => "Decorated type deeper than introspection query."
  | .missingPart part shown => s!"Introspection result missing {part}: {shown}."
  | .notOutput shown =>
    s!"Introspection must provide output type for fields, but received: {shown}."
  | .notInput place shown =>
    s!"Introspection must provide input type for {place}, but received: {shown}."
  | .notKind shown kind => s!"Expected {shown} to be a GraphQL {kind} type."
  | .noName => "Must provide name."
  | .nameNotText => "Expected name to be a string."
  | .emptyName => "Expected name to be a non-empty string."
  | .nameCharacter shown => s!"Names must only contain [_a-zA-Z0-9] but {shown} does not."
  | .nameStart shown => s!"Names must start with [_a-zA-Z] but {shown} does not."
  | .reservedValue name => s!"Enum values cannot be named: {name}."
  | .defaultValue report => report
  | .unresolved type part cause => s!"{type} {part} cannot be resolved. {cause.message}"

def kindName : IntrospectionFault → String
  | .noAttribute .. => "AttributeError"
  | .missingKey _ => "KeyError"
  | .emptyName | .nameCharacter _ | .nameStart _ | .reservedValue _ => "GraphQLError"
  | .defaultValue _ => "GraphQLSyntaxError"
  | .unresolved _ _ (.defaultValue _) | .unresolved _ _ (.emptyName) => "GraphQLError"
  | .unresolved _ _ (.nameCharacter _) | .unresolved _ _ (.nameStart _) => "GraphQLError"
  | _ => "TypeError"

end IntrospectionFault

namespace Introspection

-- What reading a part of an answer gives.
abbrev Read (α : Type) := Except IntrospectionFault α

-- The value of a key that may be missing.
def optional (d : Data) (key : String) : Read Data :=
  match d with
  | .table entries => .ok ((Data.lookup key entries).getD .null)
  | d => .error (.noAttribute d.kindName "get")

-- The value of a key that has to be there.
def item (d : Data) (key : String) : Read Data :=
  match d with
  | .table entries =>
    match Data.lookup key entries with
    | some v => .ok v
    | none => .error (.missingKey key)
  | d => .error (.noItem d.kindName)

def items (d : Data) : Read (List Data) :=
  match d with
  | .list xs => .ok xs
  | .table entries => .ok (entries.map fun (key, _) => .text key)
  | .text s => .ok (s.toList.map fun c => .text (String.singleton c))
  | d => .error (.notIterable d.kindName)

def checkedName (d : Data) : Read String :=
  match d with
  | .null => .error .noName
  | .text s =>
    match s.toList with
    | [] => .error .emptyName
    | c :: rest =>
      if !((c :: rest).all Graphql.isNameContinue) then .error (.nameCharacter (quoted s))
      else if !Graphql.isNameStart c then .error (.nameStart (quoted s))
      else .ok s
  | _ => .error .nameNotText

def description (d : Data) : Read (Option Description) := do
  match ← optional d "description" with
  | .text s =>
    let printable := !s.contains '\r' && !(s.toList.any fun c => c.toNat < 0x20 && c != '\n' && c != '\t')
    return some ⟨s, printable⟩
  | _ => return none

section

-- The kinds of the types that the answer lists, by name.
variable (kinds : List (String × Data))

def kindOf (name : String) : Option String :=
  match Data.lookup name kinds with
  | some (.text kind) => some kind
  | _ => none

-- A reference to a type. The fuel bounds its depth.
def typeRefWithin : Nat → Data → Read TypeRef
  | 0, _ => .error .tooDeep
  | fuel + 1, d => do
    let kind ← optional d "kind"
    let inner : Read TypeRef := do
      let type ← optional d "ofType"
      if type.holds then typeRefWithin fuel type else throw .tooDeep
    match kind with
    | .text "LIST" => return .list (← inner)
    | .text "NON_NULL" =>
      match ← inner with
      | .nonNull type => throw (.notKind (TypeRef.nonNull type).print "nullable")
      | type => return .nonNull type
    | _ =>
      let name ← optional d "name"
      if !name.holds then throw (.noTypeName d.brief)
      match name with
      | .text s =>
        if (Data.lookup s kinds).isSome then return .named s else throw (.unknownType s)
      | name => throw (.unknownType name.display)

def typeRef (d : Data) : Read TypeRef :=
  typeRefWithin kinds 1000 d

-- A reference to a type of one kind.
def namedType (kind label : String) (d : Data) : Read String := do
  let type ← typeRef kinds d
  match type with
  | .named name =>
    if kindOf kinds name = some kind then return name else throw (.notKind type.print label)
  | _ => throw (.notKind type.print label)

def hasKind (wanted : List String) (type : TypeRef) : Bool :=
  match kindOf kinds type.baseName with
  | some kind => wanted.contains kind
  | none => false

mutual

-- Whether a value refers to a variable.
def hasVariable : Graphql.Value → Bool
  | .variable _ => true
  | .list items => anyHasVariable items
  | .object fields => anyFieldHasVariable fields
  | _ => false

def anyHasVariable : List Graphql.Value → Bool
  | [] => false
  | v :: rest => hasVariable v || anyHasVariable rest

def anyFieldHasVariable : List (String × Graphql.Value) → Bool
  | [] => false
  | (_, v) :: rest => hasVariable v || anyFieldHasVariable rest

end

def defaultValue (d : Data) : Read (Option Graphql.Value) :=
  match d with
  | .null => .ok none
  | .text s =>
    match Graphql.parseValue s with
    | .ok v => .ok (if hasVariable v then none else some v)
    | .error e => .error (.defaultValue (e.report s))
  | d => .error (.notKind d.brief "value")

-- An argument or a field of an input type, before its name is checked.
def inputValue (place : String) (d : Data) : Read InputDefinition := do
  let name ← item d "name"
  let type ← typeRef kinds (← item d "type")
  if !hasKind kinds ["SCALAR", "ENUM", "INPUT_OBJECT"] type then
    throw (.notInput place type.print)
  let value ← defaultValue (← optional d "defaultValue")
  let name ← checkedName name
  return ⟨← description d, name, type, value, []⟩

def inputValues (place : String) (d : Data) : Read (List InputDefinition) := do
  (← items d).mapM (inputValue kinds place)

def field (d : Data) : Read FieldDefinition := do
  let name ← item d "name"
  let type ← typeRef kinds (← item d "type")
  if !hasKind kinds ["SCALAR", "OBJECT", "INTERFACE", "UNION", "ENUM"] type then
    throw (.notOutput type.print)
  let arguments ← optional d "args"
  if arguments matches .null then throw (.missingPart "field args" d.brief)
  let arguments ← inputValues kinds "arguments" arguments
  let name ← checkedName name
  return ⟨← description d, name, arguments, type, []⟩

def fields (d : Data) : Read (List FieldDefinition) := do
  let list ← optional d "fields"
  if list matches .null then throw (.missingPart "fields" d.inner)
  (← items list).mapM (field kinds)

def interfaces (d : Data) : Read (List String) := do
  let list ← optional d "interfaces"
  if list matches .null then
    match ← item d "kind" with
    | .text "INTERFACE" => return []
    | _ => throw (.missingPart "interfaces" d.brief)
  (← items list).mapM (namedType kinds "INTERFACE" "Interface")

def enumValue (d : Data) : Read EnumValueDefinition := do
  let name ← checkedName (← item d "name")
  if name ∈ ["true", "false", "null"] then throw (.reservedValue name)
  return ⟨← description d, name, []⟩

-- What is known of a type as soon as it is listed.
def listed (d : Data) : Read (String × Data) := do
  let name ← item d "name"
  let known := (← optional d "name").holds && (← optional d "kind").holds
  let kind ← optional d "kind"
  let kinds := ["SCALAR", "OBJECT", "INTERFACE", "UNION", "ENUM", "INPUT_OBJECT"]
  let isKind := match kind with
    | .text k => kinds.contains k
    | _ => false
  if !(known && isKind) then throw (.noType d.brief)
  let part (key name : String) : Read Unit := do
    if (← optional d key) matches .null then throw (.missingPart name d.brief)
  match kind with
  | .text "UNION" => part "possibleTypes" "possibleTypes"
  | .text "ENUM" =>
    part "enumValues" "enumValues"
    let _ ← (← items (← item d "enumValues")).mapM enumValue
  | .text "INPUT_OBJECT" => part "inputFields" "inputFields"
  | _ => pure ()
  return (← checkedName name, kind)

-- A part of a type, with the type named in its faults.
def within (name part : String) (r : Read α) : Read α :=
  r.mapError (.unresolved name part)

def typeDefinition (name : String) (d : Data) : Read TypeDefinition := do
  let body ← match ← item d "kind" with
    | .text "OBJECT" => do
      let interfaces ← within name "interfaces" (interfaces kinds d)
      pure (TypeBody.object interfaces (← within name "fields" (fields kinds d)))
    | .text "INTERFACE" => do
      let interfaces ← within name "interfaces" (interfaces kinds d)
      pure (TypeBody.interface interfaces (← within name "fields" (fields kinds d)))
    | .text "UNION" => do
      let members ← within name "types" do
        (← items (← item d "possibleTypes")).mapM (namedType kinds "OBJECT" "Object")
      pure (TypeBody.union members)
    | .text "ENUM" => do
      pure (TypeBody.enum (← (← items (← item d "enumValues")).mapM enumValue))
    | .text "INPUT_OBJECT" => do
      let fields ← within name "fields" do
        inputValues kinds "input fields" (← item d "inputFields")
      pure (TypeBody.input fields)
    | _ => pure TypeBody.scalar
  return ⟨← description d, name, [], body⟩

def directive (d : Data) : Read DirectiveDefinition := do
  let arguments ← optional d "args"
  if arguments matches .null then throw (.missingPart "directive args" d.brief)
  let locations ← optional d "locations"
  if locations matches .null then throw (.missingPart "directive locations" d.brief)
  let name ← checkedName (← item d "name")
  let locations ← items locations
  let arguments ← inputValues kinds "arguments" arguments
  return ⟨← description d, name, arguments, (← optional d "isRepeatable").holds,
    locations.map Data.display⟩

-- The root operation that an answer names.
def root (kind : Graphql.OperationKind) (d : Data) : Read (Option RootOperation) := do
  if d matches .null then return none
  return some ⟨kind, ← namedType kinds "OBJECT" "Object" d⟩

end

-- The usual names of root types.
def usualName : Graphql.OperationKind → String
  | .query => "Query"
  | .mutation => "Mutation"
  | .subscription => "Subscription"

def isStandardDirective (d : DirectiveDefinition) : Bool :=
  Schema.standardDirectives.any (·.name == d.name)

-- The definitions that an answer stands for.
def definitions (answer : Data) : Read Document := do
  let schema := match answer with
    | .table entries => (Data.lookup "__schema" entries).getD .null
    | _ => .null
  if !(schema matches .table _) then throw (.noSchema answer.brief)
  let types ← items (← item schema "types")
  let listedTypes ← types.mapM fun d => return ((← listed d), d)
  let kinds := listedTypes.map (·.1)
  let query ← root kinds .query (← optional schema "queryType")
  let mutation ← root kinds .mutation (← optional schema "mutationType")
  let subscription ← root kinds .subscription (← optional schema "subscriptionType")
  let directives ← optional schema "directives"
  let directives ← if directives.holds then (← items directives).mapM (directive kinds) else pure []
  let own := listedTypes.filter fun ((name, _), _) => !Schema.isStandard name
  let definitions ← own.mapM fun ((name, _), d) => typeDefinition kinds name d
  let text ← description schema
  let roots := [query, mutation, subscription].filterMap id
  let head :=
    if text.isNone && roots.all fun r => r.type == usualName r.kind then []
    else [Definition.schema text [] roots]
  return head ++ (directives.filter fun d => !isStandardDirective d).map .directive ++
    definitions.map .type

-- The text of the schema that an answer stands for.
def schemaText (answer : Data) : Read String := do
  return "\n\n".intercalate ((← definitions answer).map Definition.print)

end Introspection

end GraphqlArtifacts
