import GraphqlArtifacts.Graphql.Printer
import GraphqlArtifacts.Validation.Suggestion

-- What can be wrong with documents that are read against a schema, and the messages for it. Types
-- and values are kept as messages show them.

namespace GraphqlArtifacts

open Graphql (TypeRef)

-- Why two fields with one response name cannot both be answered.
inductive ConflictReason
  | differentFields (name other : String)
  | differingArguments
  | differingTypes (type other : TypeRef)
  | subfields (conflicts : List (String × ConflictReason))
  deriving Repr

namespace ConflictReason

mutual

def text : ConflictReason → String
  | .differentFields name other => s!"'{name}' and '{other}' are different fields"
  | .differingArguments => "they have differing arguments"
  | .differingTypes type other =>
    s!"they return conflicting types '{type.print}' and '{other.print}'"
  | .subfields conflicts => " and ".intercalate (texts conflicts)

def texts : List (String × ConflictReason) → List String
  | [] => []
  | (name, reason) :: rest => s!"subfields '{name}' conflict because {reason.text}" :: texts rest

end

end ConflictReason

inductive ValidationFault
  | duplicateOperation (name : String)
  | anonymousNotAlone
  | manySubscriptionFields (operation : Option String)
  | introspectionSubscription (operation : Option String)
  | unknownType (name : String) (near : List String)
  | fragmentOnLeaf (name : Option String) (type : String)
  | variableNotInput (name : String) (type : TypeRef)
  | leafWithSelections (field : String) (type : TypeRef)
  | missingSelections (field : String) (type : TypeRef)
  | unknownField (field type : String) (inFragments near : List String)
  | duplicateFragment (name : String)
  | unknownFragment (name : String)
  | impossibleSpread (fragment : Option String) (parent type : String)
  | cyclicFragment (name : String) (via : List String)
  | duplicateVariable (name : String)
  | undefinedVariable (name : String) (operation : Option String)
  | unusedVariable (name : String) (operation : Option String)
  | misplacedDirective (name place : String)
  | unknownDirective (name : String)
  | repeatedDirective (name : String)
  | unknownDirectiveArgument (name directive : String) (near : List String)
  | unknownArgument (name type field : String) (near : List String)
  | duplicateArgument (name : String)
  | missingInputField (type field : String) (wanted : TypeRef)
  | unknownInputField (field type : String) (near : List String)
  | wrongValue (type : TypeRef) (found : String)
  | wrongScalar (message found : String)
  | unknownEnumValue (enum found : String) (near : List String)
  | notEnumValue (enum found : String) (near : List String)
  | missingDirectiveArgument (directive name : String) (type : TypeRef)
  | missingArgument (field name : String) (type : TypeRef)
  | misusedVariable (name : String) (type wanted : TypeRef)
  | conflictingFields (name : String) (reason : ConflictReason)
  | duplicateInputField (name : String)
  | tooMany
  deriving Repr

namespace ValidationFault

open Suggestion (didYouMean)

-- The end of a message about a variable: the operation, if it has a name.
def inOperation (words : String) : Option String → String
  | some name => s!" {words} operation '{name}'."
  | none => "."

def subscriptionText : Option String → String
  | some name => s!"Subscription '{name}'"
  | none => "Anonymous Subscription"

def message : ValidationFault → String
  | .duplicateOperation name => s!"There can be only one operation named '{name}'."
  | .anonymousNotAlone => "This anonymous operation must be the only defined operation."
  | .manySubscriptionFields operation =>
    s!"{subscriptionText operation} must select only one top level field."
  | .introspectionSubscription operation =>
    s!"{subscriptionText operation} must not select an introspection top level field."
  | .unknownType name near => s!"Unknown type '{name}'." ++ didYouMean "" near
  | .fragmentOnLeaf none type => s!"Fragment cannot condition on non composite type '{type}'."
  | .fragmentOnLeaf (some name) type =>
    s!"Fragment '{name}' cannot condition on non composite type '{type}'."
  | .variableNotInput name type =>
    s!"Variable '${name}' cannot be non-input type '{type.print}'."
  | .leafWithSelections field type =>
    s!"Field '{field}' must not have a selection since type '{type.print}' has no subfields."
  | .missingSelections field type =>
    s!"Field '{field}' of type '{type.print}' must have a selection of subfields. " ++
      s!"Did you mean '{field} \x7b ... \x7d'?"
  | .unknownField field type inFragments near =>
    s!"Cannot query field '{field}' on type '{type}'." ++
      if inFragments.isEmpty then didYouMean "" near
      else didYouMean "to use an inline fragment on " inFragments
  | .duplicateFragment name => s!"There can be only one fragment named '{name}'."
  | .unknownFragment name => s!"Unknown fragment '{name}'."
  | .impossibleSpread fragment parent type =>
    "Fragment " ++ (fragment.map fun name => s!"'{name}' ").getD "" ++
      s!"cannot be spread here as objects of type '{parent}' can never be of type '{type}'."
  | .cyclicFragment name via =>
    let path := ", ".intercalate (via.map fun n => s!"'{n}'")
    s!"Cannot spread fragment '{name}' within itself" ++
      (if via.isEmpty then "." else s!" via {path}.")
  | .duplicateVariable name => s!"There can be only one variable named '${name}'."
  | .undefinedVariable name operation =>
    s!"Variable '${name}' is not defined" ++ inOperation "by" operation
  | .unusedVariable name operation =>
    s!"Variable '${name}' is never used" ++ inOperation "in" operation
  | .misplacedDirective name place => s!"Directive '@{name}' may not be used on {place}."
  | .unknownDirective name => s!"Unknown directive '@{name}'."
  | .repeatedDirective name =>
    s!"The directive '@{name}' can only be used once at this location."
  | .unknownDirectiveArgument name directive near =>
    s!"Unknown argument '{name}' on directive '@{directive}'." ++ didYouMean "" near
  | .unknownArgument name type field near =>
    s!"Unknown argument '{name}' on field '{type}.{field}'." ++ didYouMean "" near
  | .duplicateArgument name => s!"There can be only one argument named '{name}'."
  | .missingInputField type field wanted =>
    s!"Field '{type}.{field}' of required type '{wanted.print}' was not provided."
  | .unknownInputField field type near =>
    s!"Field '{field}' is not defined by type '{type}'." ++ didYouMean "" near
  | .wrongValue type found => s!"Expected value of type '{type.print}', found {found}."
  | .wrongScalar message found => s!"{message}: {found}"
  | .unknownEnumValue enum found near =>
    s!"Value '{found}' does not exist in '{enum}' enum." ++ didYouMean "the enum value " near
  | .notEnumValue enum found near =>
    s!"Enum '{enum}' cannot represent non-enum value: {found}." ++
      didYouMean "the enum value " near
  | .missingDirectiveArgument directive name type =>
    s!"Directive '@{directive}' argument '{name}' of type '{type.print}' is required, " ++
      "but it was not provided."
  | .missingArgument field name type =>
    s!"Field '{field}' argument '{name}' of type '{type.print}' is required, " ++
      "but it was not provided."
  | .misusedVariable name type wanted =>
    s!"Variable '${name}' of type '{type.print}' used in position expecting type " ++
      s!"'{wanted.print}'."
  | .conflictingFields name reason =>
    s!"Fields '{name}' conflict because {reason.text}. Use different aliases on the fields " ++
      "to fetch both if this was intentional."
  | .duplicateInputField name => s!"There can be only one input field named '{name}'."
  | .tooMany => "Too many validation errors, error limit reached. Validation aborted."

end ValidationFault

end GraphqlArtifacts
