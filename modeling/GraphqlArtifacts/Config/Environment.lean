import GraphqlArtifacts.Config.Settings
import GraphqlArtifacts.Text.Integer

-- Settings from environment variables. An empty variable does not count, and an interval that is no
-- integer is passed over.

namespace GraphqlArtifacts

-- The variables of the environment and their values.
abbrev Environment := List (String × String)

namespace Environment

-- The words that switch an option on, in letters of any case.
def isYes (word : String) : Bool :=
  ["true", "1", "yes"].contains (word.map Char.toLower)

-- The variable that sets an option, for the options that have one.
def variableOf? : OptionName → Option String
  | .schema => some "RELAYCOMPILER_SCHEMA"
  | .source => some "RELAYCOMPILER_SRC"
  | .language => some "RELAYCOMPILER_LANGUAGE"
  | .artifactDirectory => some "RELAYCOMPILER_ARTIFACT_DIRECTORY"
  | .watchman => some "RELAYCOMPILER_WATCHMAN"
  | .pollInterval => some "RELAYCOMPILER_POLL_INTERVAL_MS"
  | _ => none

-- The value that a text gives an option.
def valueOf? (name : OptionName) (text : String) : Option Data :=
  match name with
  | .watchman => some (.bool (isYes text))
  | .pollInterval => (Integer.ofText? text).map .int
  | _ => some (.text text)

-- What the environment sets an option to.
def get? (e : Environment) (name : OptionName) : Option Data := do
  let text ← Data.lookup (← variableOf? name) e
  if text = "" then none
  valueOf? name text

def settings (e : Environment) : Settings := fun name =>
  (e.get? name).getD (Settings.defaults name)

end Environment

end GraphqlArtifacts
