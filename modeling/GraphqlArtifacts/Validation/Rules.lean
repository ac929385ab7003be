import GraphqlArtifacts.Schema.Coercion
import GraphqlArtifacts.Validation.Conflict
import GraphqlArtifacts.Validation.Fault
import GraphqlArtifacts.Validation.Usage

-- The rules for documents, each as the faults that it finds at a visit.

namespace GraphqlArtifacts

open Graphql (Document Definition Operation Fragment Selection Directive Argument Value TypeRef)

-- The names that occur more than once, in order.
def repeatedNames (names : List String) : List String :=
  names.eraseDups.filter fun name => 1 < names.count name

namespace Rule

abbrev Faults := List ValidationFault

def when (condition : Bool) (fault : ValidationFault) : Faults :=
  if condition then [fault] else []

-- Operations

def uniqueOperationName (earlier : List Definition) (o : Operation) : Faults :=
  match o.name with
  | some name =>
    let names := (earlier.filterMap Definition.operation?).filterMap (·.name)
    when (names.contains name) (.duplicateOperation name)
  | none => []

-- An operation without a name is the only one.
def loneAnonymous (d : Document) (o : Operation) : Faults :=
  when (o.name.isNone && 1 < (d.filterMap Definition.operation?).length) .anonymousNotAlone

-- Whether directives leave a selection in, as far as they do not depend on variables.
def isIncluded (ds : List Directive) : Bool :=
  let asks (name : String) (b : Bool) : Bool :=
    (ds.find? (·.name == name)).any fun d => d.arguments.any fun a =>
      a.name == "if" && match a.value with
        | .boolean v => v == b
        | _ => false
  !asks "skip" true && !asks "include" false

-- Whether a fragment on a type applies to values of an object type.
def appliesTo (s : Schema) (object : Schema.NamedType) (condition : String) : Bool :=
  condition == object.name ||
    (s.type? condition).any fun t => t.isAbstract && s.isSubtype t object

mutual

-- The fields that a selection asks of an object type, by response name, with the names of the
-- fragments already spread. The fuel bounds the depth of fragments.
def collectField (s : Schema) (d : Document) (object : Schema.NamedType) :
    Nat → List (String × String) × List String → Selection →
      List (String × String) × List String
  | 0, found, _ => found
  | fuel + 1, (fields, spread), selection =>
    match selection with
    | .field renamed name _ ds _ =>
      if isIncluded ds then (fields ++ [(renamed.getD name, name)], spread) else (fields, spread)
    | .inlineFragment condition ds selections =>
      if isIncluded ds && condition.all (appliesTo s object) then
        collectFields s d object fuel (fields, spread) selections
      else
        (fields, spread)
    | .spread name ds =>
      if spread.contains name || !isIncluded ds then
        (fields, spread)
      else
        match Graphql.fragment? d name with
        | some f =>
          if appliesTo s object f.typeCondition then
            collectFields s d object fuel (fields, spread ++ [name]) f.selections
          else
            (fields, spread ++ [name])
        | none => (fields, spread ++ [name])

def collectFields (s : Schema) (d : Document) (object : Schema.NamedType) :
    Nat → List (String × String) × List String → List Selection →
      List (String × String) × List String
  | 0, found, _ => found
  | fuel + 1, found, selections =>
    selections.foldl (collectField s d object fuel) found

end

-- A subscription asks for one field, which does not describe the schema.
def singleSubscriptionField (s : Schema) (d : Document) (o : Operation) : Faults :=
  match o.kind, s.rootType? .subscription with
  | .subscription, some object =>
    let fields := (collectFields s d object (2 * Conflict.depthBound d) ([], []) o.selections).1
    let keys := (fields.map (·.1)).eraseDups
    let isIntrospection (key : String) : Bool :=
      ((Data.lookup key fields).getD "").startsWith "__"
    when (1 < keys.length) (.manySubscriptionFields o.name) ++
      (keys.filter isIntrospection).map fun _ => .introspectionSubscription o.name
  | _, _ => []

-- The variables of an operation have different names.
def uniqueVariables (o : Operation) : Faults :=
  (repeatedNames (o.variableDefinitions.map (·.name))).map .duplicateVariable

-- The variables that an operation reaches are its own.
def definedVariables (usages : List Usage) (o : Operation) : Faults :=
  (usages.filter fun u => !o.variableDefinitions.any (·.name == u.name)).map fun u =>
    .undefinedVariable u.name o.name

-- The variables of an operation are used.
def usedVariables (usages : List Usage) (o : Operation) : Faults :=
  (o.variableDefinitions.filter fun v => !usages.any (·.name == v.name)).map fun v =>
    .unusedVariable v.name o.name

-- Variables are used where their types are allowed.
def variablePositions (s : Schema) (usages : List Usage) (o : Operation) : Faults :=
  usages.flatMap fun u =>
    match o.variableDefinitions.reverse.find? (·.name == u.name), u.expected.type with
    | some v, some wanted =>
      when (s.resolves v.type && !s.allowsUsage v.type v.defaultValue wanted u.expected.hasDefault)
        (.misusedVariable u.name v.type wanted)
    | _, _ => []

-- Variables have types that can be given.
def variableIsInput (s : Schema) (v : Graphql.VariableDefinition) : Faults :=
  when ((s.type? v.type.baseName).any (!·.isInput)) (.variableNotInput v.name v.type)

-- Types and fragments

def knownType (s : Schema) (name : String) : Faults :=
  when (s.type? name).isNone
    (.unknownType name (Suggestion.near name (s.types.map (·.name))))

-- Fragments are on types that have selections.
def compositeCondition (s : Schema) (fragment : Option String) (condition : String) : Faults :=
  when ((s.type? condition).any (!·.isComposite)) (.fragmentOnLeaf fragment condition)

def uniqueFragmentName (earlier : List Definition) (f : Fragment) : Faults :=
  when ((earlier.filterMap Definition.fragment?).any (·.name == f.name))
    (.duplicateFragment f.name)

def knownFragment (d : Document) (name : String) : Faults :=
  when (Graphql.fragment? d name).isNone (.unknownFragment name)

-- Whether some value can have both types.
def typesOverlap (s : Schema) (a b : Schema.NamedType) : Bool :=
  if a.name = b.name then true
  else if a.isAbstract then
    if b.isAbstract then (s.possibleTypes a).any (s.isSubtype b ·) else s.isSubtype a b
  else
    b.isAbstract && s.isSubtype b a

-- A fragment is spread where its type is possible.
def possibleSpread (s : Schema) (fragment : Option String)
    (type parent : Option Schema.NamedType) : Faults :=
  match type, parent with
  | some type, some parent =>
    when (!typesOverlap s type parent) (.impossibleSpread fragment parent.name type.name)
  | _, _ => []

def possibleNamedSpread (s : Schema) (d : Document) (parent : Option Schema.NamedType)
    (name : String) : Faults :=
  let type := (Graphql.fragment? d name).bind fun f => s.compositeType? f.typeCondition
  possibleSpread s (some name) type parent

-- Fragments do not spread themselves: the faults found from one, and the fragments seen. The path
-- holds the names spread on the way, the last one first; the fuel bounds the number of fragments.
def cyclesFrom (d : Document) :
    Nat → Fragment → List String → Faults × List String → Faults × List String
  | 0, _, _, found => found
  | fuel + 1, f, path, (faults, seen) =>
    if seen.contains f.name then
      (faults, seen)
    else
      (Graphql.spreadsIn f.selections).foldl
        (fun (faults, seen) name =>
          -- The way from the fragment of that name back to it, if it is on the path.
          let way := path.takeWhile (· != name)
          if f.name = name then (faults ++ [.cyclicFragment name []], seen)
          else if way.length < path.length then
            (faults ++ [.cyclicFragment name (way.reverse ++ [f.name])], seen)
          else
            match Graphql.fragment? d name with
            | some g => cyclesFrom d fuel g (f.name :: path) (faults, seen)
            | none => (faults, seen))
        (faults, f.name :: seen)

def acyclicFragment (d : Document) (earlier : List Definition) (f : Fragment) : Faults :=
  let fuel := (d.filterMap Definition.fragment?).length + 1
  let seen := (earlier.filterMap Definition.fragment?).foldl
    (fun seen g => (cyclesFrom d fuel g [] ([], seen)).2) []
  (cyclesFrom d fuel f [] ([], seen)).1

-- Fields

-- Fields have selections just if their types do.
def leafSelections (s : Schema) (place : FieldPlace) : Faults :=
  match place.definition with
  | none => []
  | some f =>
    let isLeaf := (s.type? f.type.baseName).any (·.isLeaf)
    when (isLeaf && place.hasSelections) (.leafWithSelections place.name f.type) ++
      when (!isLeaf && !place.hasSelections) (.missingSelections place.name f.type)

-- The types that have a field, among those that an abstract type stands for: those that share it
-- most first, then more general ones, then in natural order.
def typesWithField (s : Schema) (t : Schema.NamedType) (field : String) : List String :=
  let hasField (u : Schema.NamedType) : Bool := (u.field? field).isSome
  let objects := (s.possibleTypes t).filter hasField
  let interfacesOf (o : Schema.NamedType) : List Schema.NamedType :=
    (o.interfaces.filterMap s.type?).filter hasField
  let mentions := objects.flatMap fun o => o :: interfacesOf o
  let count (u : Schema.NamedType) : Nat := (mentions.filter (·.name == u.name)).length
  let distinct := mentions.foldl
    (fun us u => if us.any (·.name == u.name) then us else us ++ [u]) ([] : List Schema.NamedType)
  let before (a b : Schema.NamedType) : Bool :=
    if count a ≠ count b then count b < count a
    else if a.isInterface && s.isSubtype a b then true
    else if b.isInterface && s.isSubtype b a then false
    else Suggestion.naturallyBefore a.name b.name
  (distinct.mergeSort fun a b => !before b a).map (·.name)

-- Fields exist on the types that they are selected on.
def knownField (s : Schema) (place : FieldPlace) : Faults :=
  match place.parent, place.definition with
  | some t, none =>
    let inFragments := if t.isAbstract then typesWithField s t place.name else []
    let near := Suggestion.near place.name (t.fields.map (·.name))
    [.unknownField place.name t.name inFragments near]
  | _, _ => []

-- The required arguments of a field are given.
def requiredArguments (place : FieldPlace) : Faults :=
  match place.definition with
  | none => []
  | some f =>
    (f.arguments.filter fun i => i.isRequired && !place.arguments.any (·.name == i.name)).map
      fun i => .missingArgument place.name i.name i.type

-- The arguments of a field exist.
def knownArgument (place : FieldPlace) (name : String) : Faults :=
  match place.parent, place.definition with
  | some t, some f =>
    let known := f.arguments.map (·.name)
    when (!known.contains name)
      (.unknownArgument name t.name place.name (Suggestion.near name known))
  | _, _ => []

def uniqueArguments (arguments : List Argument) : Faults :=
  (repeatedNames (arguments.map (·.name))).map .duplicateArgument

-- Directives

-- What a schema asks of a directive: of several of one name, the last.
def directiveType? (s : Schema) (name : String) : Option Schema.DirectiveType :=
  s.directives.reverse.find? (·.name == name)

-- The name of a place where directives can stand, as schemas write it.
def locationName (place : String) : String :=
  (place.replace " " "_").toUpper

-- Directives exist and stand where they may.
def knownDirective (s : Schema) (place : String) (d : Directive) : Faults :=
  match (directiveType? s d.name).filter (!·.locations.isEmpty) with
  | some t => when (!t.locations.contains (locationName place)) (.misplacedDirective d.name place)
  | none => [.unknownDirective d.name]

-- A directive stands once at one place, unless it can be repeated.
def uniqueDirectives (s : Schema) (ds : List Directive) : Faults :=
  let single := (ds.map (·.name)).filter fun name => (directiveType? s name).any (!·.repeatable)
  go [] single
where
  go (seen : List String) : List String → Faults
  | [] => []
  | name :: rest => when (seen.contains name) (.repeatedDirective name) ++ go (name :: seen) rest

def knownDirectiveArguments (s : Schema) (d : Directive) : Faults :=
  match directiveType? s d.name with
  | none => []
  | some t =>
    let known := t.arguments.map (·.name)
    (d.arguments.filter fun a => !known.contains a.name).map fun a =>
      .unknownDirectiveArgument a.name d.name (Suggestion.near a.name known)

def requiredDirectiveArguments (s : Schema) (d : Directive) : Faults :=
  match directiveType? s d.name with
  | none => []
  | some t =>
    (t.arguments.filter fun i => i.isRequired && !d.arguments.any (·.name == i.name)).map
      fun i => .missingDirectiveArgument d.name i.name i.type

-- Values

-- What is wrong with a value for a scalar or an enum.
def leafFaults (t : Schema.NamedType) (v : Value) : Faults :=
  match t.body with
  | .enum values =>
    let near := Suggestion.near v.print values
    match v with
    | .enum value => when (!values.contains value) (.unknownEnumValue t.name value near)
    | v => [.notEnumValue t.name v.print near]
  | _ =>
    if Schema.scalarTakes t.name v then []
    else
      let message := match t.name, v with
        | "Int", .int _ => "Int cannot represent non 32-bit signed integer value"
        | "Int", _ => "Int cannot represent non-integer value"
        | "Float", _ => "Float cannot represent non numeric value"
        | "String", _ => "String cannot represent a non string value"
        | "Boolean", _ => "Boolean cannot represent a non boolean value"
        | _, _ => "ID cannot represent a non-string and non-integer value"
      [.wrongScalar message v.print]

-- Values are of the types that are expected of them.
def valueType (s : Schema) (type : Option TypeRef) (v : Value) : Faults :=
  match type with
  | none => []
  | some type =>
    match v, s.type? type.baseName with
    | .null, _ => when type.isNonNull (.wrongValue type v.print)
    | _, none => []
    | .object fields, some ⟨name, _, .input inputs⟩ =>
      (inputs.filter fun i => i.isRequired && !fields.any (·.1 == i.name)).map fun i =>
        .missingInputField name i.name i.type
    | v, some t => if t.isLeaf then leafFaults t v else [.wrongValue type v.print]

-- The fields of an input object exist.
def knownInputField (object : Option Schema.NamedType) (known : Bool) (name : String) : Faults :=
  match object with
  | some t =>
    when (!known)
      (.unknownInputField name t.name (Suggestion.near name (t.inputs.map (·.name))))
  | none => []

end Rule

-- The faults that the rules find at a visit, but for conflicts between fields.
def Visit.faults (s : Schema) (d : Document) : Visit → List ValidationFault
  | .operation earlier o =>
    Rule.uniqueOperationName earlier o ++ Rule.loneAnonymous d o ++
      Rule.singleSubscriptionField s d o ++ Rule.uniqueVariables o
  | .operationEnd o =>
    let usages := Usage.ofOperation s d o
    Rule.definedVariables usages o ++ Rule.usedVariables usages o ++
      Rule.variablePositions s usages o
  | .fragment earlier f =>
    Rule.compositeCondition s (some f.name) f.typeCondition ++ Rule.uniqueFragmentName earlier f ++
      Rule.acyclicFragment d earlier f
  | .variableDefinition v => Rule.variableIsInput s v
  | .typeName name => Rule.knownType s name
  | .directives ds => Rule.uniqueDirectives s ds
  | .selections .. => []
  | .field place => Rule.leafSelections s place ++ Rule.knownField s place
  | .fieldArguments arguments => Rule.uniqueArguments arguments
  | .fieldEnd place => Rule.requiredArguments place
  | .spread parent name => Rule.knownFragment d name ++ Rule.possibleNamedSpread s d parent name
  | .inlineFragment parent type condition =>
    (condition.map (Rule.compositeCondition s none)).getD [] ++
      Rule.possibleSpread s none type parent
  | .directive place used =>
    Rule.knownDirective s place used ++ Rule.knownDirectiveArguments s used ++
      Rule.uniqueArguments used.arguments
  | .directiveEnd used => Rule.requiredDirectiveArguments s used
  | .argument place name => Rule.knownArgument place name
  | .value silent type v => if silent then [] else Rule.valueType s type v
  | .inputField silent object known repeated name =>
    (if silent then [] else Rule.knownInputField object known name) ++
      Rule.when repeated (.duplicateInputField name)
  | .variable .. => []

end GraphqlArtifacts
