import GraphqlArtifacts.Schema.Coercion

-- Building a schema from definitions, and extending one with further definitions. Of two
-- definitions of one name the later counts; extensions of a type that is not there are ignored.
-- That each type is of a kind that its place takes is not looked at.

namespace GraphqlArtifacts

open Graphql (Document Definition TypeRef TypeDefinition TypeBody InputDefinition FieldDefinition
  DirectiveDefinition RootOperation OperationKind)

inductive SchemaFault
  | unknownType (name : String)
  | noPart (holder part : String)
  | unresolved (type part : String) (cause : SchemaFault)
  deriving DecidableEq, Repr

namespace SchemaFault

def message : SchemaFault → String
  | .unknownType name => s!"Unknown type: '{name}'."
  | .noPart holder part => s!"'{holder}' object has no attribute '{part}'"
  | .unresolved type part cause => s!"{type} {part} cannot be resolved. {cause.message}"

end SchemaFault

-- The items with one more: it takes the place of an item of its name, or the last place.
def putNamed (nameOf : α → String) (a : α) : List α → List α
  | [] => [a]
  | b :: rest => if nameOf b = nameOf a then a :: rest else b :: putNamed nameOf a rest

def putAllNamed (nameOf : α → String) (items more : List α) : List α :=
  more.foldl (fun items a => putNamed nameOf a items) items

namespace Schema

-- The name of an extension of a type, by the kind that it extends.
def extensionName : TypeBody → String
  | .scalar => "ScalarTypeExtensionNode"
  | .object .. => "ObjectTypeExtensionNode"
  | .interface .. => "InterfaceTypeExtensionNode"
  | .union _ => "UnionTypeExtensionNode"
  | .enum _ => "EnumTypeExtensionNode"
  | .input _ => "InputObjectTypeExtensionNode"

-- A type with the definition and the extensions that are still to be added to it.
structure Draft where
  start : NamedType
  additions : List TypeDefinition
  deriving Repr

def emptyBody : TypeBody → Body
  | .scalar => .scalar
  | .object .. => .object [] []
  | .interface .. => .interface [] []
  | .union _ => .union []
  | .enum _ => .enum []
  | .input _ => .input []

namespace Draft

def name (d : Draft) : String :=
  d.start.name

-- A type that its definition and its extensions make up.
def ofDefinition (extensions : List TypeDefinition) (t : TypeDefinition) : Draft :=
  ⟨⟨t.name, t.description.map (·.value), emptyBody t.body⟩,
    t :: extensions.filter (·.name == t.name)⟩

-- A type that is there already. Standard types are not extended.
def ofType (extensions : List TypeDefinition) (t : NamedType) : Draft :=
  ⟨t, if isStandard t.name then [] else extensions.filter (·.name == t.name)⟩

end Draft

section

-- The names that have a type.
variable (known : String → Bool)

def checkName (name : String) : Except SchemaFault String :=
  if known name then .ok name else .error (.unknownType name)

def inputOf (d : InputDefinition) : Except SchemaFault Input := do
  let _ ← checkName known d.type.baseName
  return ⟨d.name, d.type, d.defaultValue⟩

def inputsOf (ds : List InputDefinition) : Except SchemaFault (List Input) := do
  return putAllNamed Input.name [] (← ds.mapM (inputOf known))

def fieldOf (d : FieldDefinition) : Except SchemaFault Field := do
  let _ ← checkName known d.type.baseName
  return ⟨d.name, ← inputsOf known d.arguments, d.type⟩

def addedInterfaces (t : TypeDefinition) : Except SchemaFault (List String) :=
  match t.body with
  | .object interfaces _ | .interface interfaces _ => interfaces.mapM (checkName known)
  | body => .error (.noPart (extensionName body) "interfaces")

def addedFields (t : TypeDefinition) : Except SchemaFault (List Field) :=
  match t.body with
  | .object _ fields | .interface _ fields => fields.mapM (fieldOf known)
  | body => .error (.noPart (extensionName body) "fields")

def addedMembers (t : TypeDefinition) : Except SchemaFault (List String) :=
  match t.body with
  | .union members => members.mapM (checkName known)
  | body => .error (.noPart (extensionName body) "types")

-- The fields of an input type. A field with arguments has no default value to give.
def addedInputs (t : TypeDefinition) : Except SchemaFault (List Input) :=
  match t.body with
  | .input fields => fields.mapM (inputOf known)
  | .object _ fields | .interface _ fields =>
    fields.mapM fun f => do
      let _ ← checkName known f.type.baseName
      throw (.noPart "FieldDefinitionNode" "default_value")
  | body => .error (.noPart (extensionName body) "fields")

def addedValues (t : TypeDefinition) : Except SchemaFault (List String) :=
  match t.body with
  | .enum values => .ok (values.map (·.name))
  | body => .error (.noPart (extensionName body) "values")

-- All that some definitions add, one after the other.
def addedBy (added : TypeDefinition → Except SchemaFault (List α)) (ts : List TypeDefinition) :
    Except SchemaFault (List α) := do
  return (← ts.mapM added).flatten

-- The values of an enum, each once.
def Draft.enumValues (d : Draft) : Except SchemaFault (List String) :=
  match d.start.body with
  | .enum values => do return putAllNamed id values (← addedBy addedValues d.additions)
  | _ => .ok []

def Draft.finish (d : Draft) : Except SchemaFault NamedType :=
  let within (part : String) (e : SchemaFault) : SchemaFault := .unresolved d.name part e
  let members : Except SchemaFault (List String × List Field) := do
    let interfaces ← (addedBy (addedInterfaces known) d.additions).mapError (within "interfaces")
    let fields ← (addedBy (addedFields known) d.additions).mapError (within "fields")
    return (interfaces, fields)
  match d.start.body with
  | .scalar => .ok d.start
  | .object interfaces fields => do
    let (moreInterfaces, moreFields) ← members
    return { d.start with
      body := .object (interfaces ++ moreInterfaces) (putAllNamed Field.name fields moreFields) }
  | .interface interfaces fields => do
    let (moreInterfaces, moreFields) ← members
    return { d.start with
      body := .interface (interfaces ++ moreInterfaces) (putAllNamed Field.name fields moreFields) }
  | .union names => do
    let more ← (addedBy (addedMembers known) d.additions).mapError (within "types")
    return { d.start with body := .union (names ++ more) }
  | .enum _ => do
    return { d.start with body := .enum (← d.enumValues) }
  | .input fields => do
    let more ← (addedBy (addedInputs known) d.additions).mapError (within "fields")
    return { d.start with body := .input (putAllNamed Input.name fields more) }

def directiveOf (d : DirectiveDefinition) : Except SchemaFault DirectiveType := do
  return ⟨d.name, ← inputsOf known d.arguments, d.repeatable, d.locations⟩

def addRoot (s : Schema) (r : RootOperation) : Except SchemaFault Schema := do
  return s.withRoot r.kind (← checkName known r.type)

end

-- The names that a type refers to.
def NamedType.references (t : NamedType) : List String :=
  let ofInputs (inputs : List Input) := inputs.map (·.type.baseName)
  match t.body with
  | .object interfaces fields | .interface interfaces fields =>
    interfaces ++ fields.flatMap fun f => f.type.baseName :: ofInputs f.arguments
  | .union members => members
  | .input fields => ofInputs fields
  | _ => []

-- The standard types that a schema needs: those that describe schemas, with the scalars in them,
-- and those that it refers to.
def neededStandardTypes (s : Schema) : List NamedType :=
  let references := [s.query, s.mutation, s.subscription].filterMap id ++
    s.types.flatMap NamedType.references ++ introspectionTypes.flatMap NamedType.references ++
    s.directives.flatMap fun d => d.arguments.map (·.type.baseName)
  standardTypes.filter fun t => t.name.startsWith "__" || references.contains t.name

def typeDefinition? : Definition → Option TypeDefinition
  | .type t => some t
  | _ => none

def typeExtension? : Definition → Option TypeDefinition
  | .typeExtension t => some t
  | _ => none

def directiveDefinition? : Definition → Option DirectiveDefinition
  | .directive d => some d
  | _ => none

-- The root operations that a document sets: those of its last schema definition, and then those
-- of all extensions.
def rootOperations (d : Document) : List RootOperation :=
  let definitions := d.filterMap fun
    | .schema _ _ roots => some roots
    | _ => none
  let extensions := d.filterMap fun
    | .schemaExtension _ roots => some roots
    | _ => none
  definitions.getLast?.getD [] ++ extensions.flatten

def hasSchemaDefinition (d : Document) : Bool :=
  d.any fun
    | .schema .. => true
    | _ => false

-- A schema with further definitions and extensions.
def extend (s : Schema) (d : Document) : Except SchemaFault Schema := do
  let extensions := d.filterMap typeExtension?
  let (standard, own) := (d.filterMap typeDefinition?).partition (isStandard ·.name)
  let drafts := putAllNamed Draft.name (s.types.map (Draft.ofType extensions))
    (own.map (Draft.ofDefinition extensions))
  let known (name : String) : Bool := isStandard name || drafts.any (·.name == name)
  for draft in s.types.map (Draft.ofType extensions) ++ own.map (Draft.ofDefinition extensions) do
    let _ ← draft.enumValues
  let rooted ← (rootOperations d).foldlM (addRoot known) s
  let directives ← (d.filterMap directiveDefinition?).mapM (directiveOf known)
  let types ← drafts.mapM (Draft.finish known)
  let extended : Schema := { rooted with
    types := types.map (NamedType.checked types)
    directives := s.directives ++ directives.map (DirectiveType.checked types) }
  let needed := (standardTypes.filter fun t => standard.any (·.name == t.name)) ++
    extended.neededStandardTypes
  return { extended with types := putAllNamed NamedType.name extended.types needed }

-- A schema whose root types are those with the usual names.
def withUsualRoots (s : Schema) : Schema :=
  [("Query", OperationKind.query), ("Mutation", .mutation), ("Subscription", .subscription)].foldl
    (fun s (name, kind) => if (s.type? name).isSome then s.withRoot kind name else s)
    s

-- The schema that a document defines, with all standard directives.
def build (d : Document) : Except SchemaFault Schema := do
  let s ← Schema.empty.extend d
  let s := if hasSchemaDefinition d then s else s.withUsualRoots
  let missing := standardDirectives.filter fun directive =>
    !s.directives.any (·.name == directive.name)
  return { s with directives := s.directives ++ missing }

end Schema

end GraphqlArtifacts
