import GraphqlArtifacts.Data.Basic

-- What a generated module says about one definition.

namespace GraphqlArtifacts

structure ModuleSpec where
  moduleName : String
  documentType : String
  typeText : String
  sourceHash : String
  node : List (String × Data)
  deriving Repr

end GraphqlArtifacts
