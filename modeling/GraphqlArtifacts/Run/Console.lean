import GraphqlArtifacts.Engine.State
import GraphqlArtifacts.Number.Binary64

-- Reports as lines of text. Quiet keeps errors only; verbose adds the time that steps took and a
-- trace of each error.

namespace GraphqlArtifacts

structure Console where
  verbose : Bool
  quiet : Bool
  deriving DecidableEq, Repr

namespace Console

-- The kinds of errors that are the compiler's own.
def ownKinds : List String :=
  ["RelayCompilerError", "ConfigurationError", "SchemaLoadError", "PluginLoadError", "CodegenError",
    "WatchmanError"]

-- The full name of a kind of errors.
def fullKindName (kind : String) : String :=
  if ownKinds.contains kind then "relaycompiler.errors." ++ kind else kind

-- The trace of an error that was raised nowhere.
def trace (kind message : String) : String :=
  fullKindName kind ++ (if message = "" then "" else ": " ++ message) ++ "\n"

def messageText (c : Console) (text : String) : String :=
  if c.quiet then "" else text ++ "\n"

def timeText (c : Console) (name : String) (milliseconds : Binary64) : String :=
  if c.verbose && !c.quiet then s!"{name} took {milliseconds.toIntegerText}ms\n" else ""

def errorText (c : Console) (caption message trace : String) : String :=
  s!"{caption}: {message}\n" ++ if c.verbose then trace ++ "\n" else ""

-- The text of an event, given what is measured and traced.
def eventText (c : Console) (milliseconds : Binary64) (trace : EngineFault → String) :
    Event → String
  | .message text => c.messageText text
  | .time name => c.timeText name milliseconds
  | .error caption fault => c.errorText caption fault.message (trace fault)

end Console

end GraphqlArtifacts
