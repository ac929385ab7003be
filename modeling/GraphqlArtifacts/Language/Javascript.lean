import GraphqlArtifacts.Flow.Module
import GraphqlArtifacts.Flow.Types

-- The plugin for JavaScript with Flow types.

namespace GraphqlArtifacts

namespace Plugin

def javascript : Plugin where
  name := "javascript"
  inputExtensions := ["js", "jsx"]
  outputExtension := "js"
  findTags text := .ok (Tag.findAll text)
  formatModule m := .ok (Flow.moduleText m)
  generateTypes := Flow.types

end Plugin

end GraphqlArtifacts
