import GraphqlArtifacts.Language.ModuleSpec
import GraphqlArtifacts.Language.Tag
import GraphqlArtifacts.Schema.Basic

-- Language plugins: how a language embeds documents, and what is generated for it.

namespace GraphqlArtifacts

-- Why a part of a plugin fails.
inductive PluginFailure
  | failed (message : String)
  | untypedDefinition
  | unknownVariableType (name : String)
  deriving DecidableEq, Repr

namespace PluginFailure

def message : PluginFailure → String
  | .failed message => message
  | .untypedDefinition => "only named operations and fragments have types"
  | .unknownVariableType name => s!"unknown type for variable ${name}"

def kindName : PluginFailure → String
  | .failed _ => "RuntimeError"
  | .untypedDefinition | .unknownVariableType _ => "ValueError"

end PluginFailure

-- How types are generated. Scalars that are not standard can be given a type by name.
structure TypeOptions where
  customScalars : List (String × String)
  noFutureProofEnums : Bool
  deriving Repr

structure Plugin where
  name : String
  inputExtensions : List String
  outputExtension : String
  findTags : String → Except PluginFailure (List Tag)
  formatModule : ModuleSpec → Except PluginFailure String
  generateTypes : Schema → TypeOptions → Graphql.Definition → Except PluginFailure String

end GraphqlArtifacts
