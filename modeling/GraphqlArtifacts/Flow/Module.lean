import GraphqlArtifacts.Json.Printer
import GraphqlArtifacts.Language.ModuleSpec

-- The generated module of one definition: its types in a comment, and its node as JSON.

namespace GraphqlArtifacts

namespace Flow

-- The text of a generated module.
def moduleText (m : ModuleSpec) : String :=
  "/**\n * @flow\n * @relayHash " ++ m.sourceHash ++ "\n */\n\n/* eslint-disable */\n\n" ++
    "'use strict';\n\n/*::\nimport type \x7b " ++ m.documentType ++ " \x7d from 'relay-runtime';\n" ++
    m.typeText ++ "\n*/\n\nconst node/*: " ++ m.documentType ++ "*/ = " ++
    Json.pretty (.table m.node) ++ ";\n// prettier-ignore\n(node/*: any*/).hash = '" ++
    m.sourceHash ++ "';\nmodule.exports = node;\n"

end Flow

end GraphqlArtifacts
