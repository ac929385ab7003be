import GraphqlArtifacts.Config.OptionName
import GraphqlArtifacts.Data.Basic

-- The values of all options, before they are known to have the right types. Settings are merged by
-- what differs from the defaults: a value that equals its default does not count as set.

namespace GraphqlArtifacts

abbrev Settings := OptionName → Data

namespace Settings

def ofTexts (texts : List String) : Data :=
  .list (texts.map .text)

def defaultIncludes : List String :=
  ["**"]

def defaultExcludes : List String :=
  ["**/node_modules/**", "**/__mocks__/**", "**/__generated__/**"]

def defaultLanguage : String :=
  "javascript"

def defaults : Settings
  | .schema | .source => .text ""
  | .extensions | .artifactDirectory => .null
  | .includes => ofTexts defaultIncludes
  | .excludes => ofTexts defaultExcludes
  | .verbose | .quiet | .watch | .validate | .noFutureProofEnums | .respectIgnoreFiles => .bool false
  | .watchman => .bool true
  | .language => .text defaultLanguage
  | .customScalars => .table []
  | .pollInterval => .int 500

def set (s : Settings) (name : OptionName) (value : Data) : Settings :=
  fun other => if other = name then value else s other

-- The settings with some values set, the later ones over the earlier ones.
def setAll (s : Settings) (values : List (OptionName × Data)) : Settings :=
  values.foldl (fun s (name, value) => s.set name value) s

-- The second settings where they differ from the defaults, else the first.
def merge (s other : Settings) : Settings := fun name =>
  if (other name).same (defaults name) then s name else other name

@[simp] theorem set_self (s : Settings) (name : OptionName) (value : Data) :
    s.set name value name = value := by
  simp [set]

theorem set_of_ne (s : Settings) {name other : OptionName} (value : Data) (h : other ≠ name) :
    s.set name value other = s other := by
  simp [set, h]

-- The values as a table under the options' own keys.
def entries (s : Settings) : List (String × Data) :=
  OptionName.all.map fun name => (name.key, s name)

end Settings

end GraphqlArtifacts
