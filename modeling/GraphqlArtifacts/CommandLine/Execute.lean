import GraphqlArtifacts.CommandLine.Arguments
import GraphqlArtifacts.CommandLine.Help
import GraphqlArtifacts.Run.Basic
import GraphqlArtifacts.Run.Console

-- Carrying out a command line: what it asks for, with the settings of the directory that it is
-- given in, and the texts and the exit code with which it ends.

namespace GraphqlArtifacts

namespace CommandLine

-- A command line, and where it is given.
structure Invocation where
  words : List String
  directory : Path
  environment : Environment
  languages : PluginRegistry
  modules : ModuleLibrary
  hasWatchman : Bool

-- The end of a command: its exit code, and the texts for the output and for errors.
structure CommandEnd where
  code : Nat
  output : String
  errors : String
  deriving DecidableEq, Repr

-- A fault that is not foreseen, which ends a command without an exit code of its own.
inductive CommandFault
  | config (e : ConfigFault)
  | run (e : RunFault)

namespace CommandFault

def message : CommandFault → String
  | .config e => e.message
  | .run e => e.message

def kindName : CommandFault → String
  | .config e => e.kindName
  | .run e => e.kindName

end CommandFault

def errorLine (message : String) : String :=
  s!"{programName}: error: {message}\n"

-- The arguments of a command line, or its end if it asks for no run.
def endOrArguments (words : List String) : Except CommandEnd Arguments :=
  match read words with
  | .error e => .error ⟨2, "", usage ++ errorLine e.message⟩
  | .ok .help => .error ⟨0, help, ""⟩
  | .ok .version => .error ⟨0, versionText, ""⟩
  | .ok (.run a) => .ok a

-- How reports are completed: the time that steps took, and the traces of faults.
structure Measures where
  milliseconds : Binary64
  trace : EngineFault → String

variable {σ : Type}

-- The end of a run with given settings. Watching ends when it is stopped, which is no error.
def finish (m : Measures) (s : Settings) (events : List Event) (result : Except RunFault RunEnd) :
    Except CommandFault CommandEnd :=
  let console : Console := ⟨s.isOn .verbose, s.isOn .quiet⟩
  let shown := String.join (events.map (console.eventText m.milliseconds m.trace))
  match result with
  | .ok (.finished code) => .ok ⟨code, "", shown⟩
  | .ok .stopped => .ok ⟨0, "", shown⟩
  | .error e =>
    if e.isForeseen then .ok ⟨1, "", shown ++ errorLine e.message⟩ else .error (.run e)

-- Runs with the arguments over the settings of the directory.
def runWith (w : World σ) (i : Invocation) (m : Measures) (polls : Nat) (a : Arguments)
    (scene : Scene σ) : Except CommandFault CommandEnd × EngineState σ :=
  match Settings.load scene.tree i.directory i.environment with
  | .error e => (.error (.config e), EngineState.start scene)
  | .ok loaded =>
    let s := a.overlay loaded
    let input : RunInput := ⟨s, i.directory, i.languages, i.modules, i.hasWatchman⟩
    let (result, after) := (Run.all w input polls).run (EngineState.start scene)
    (finish m s after.events result, after)

-- Carries out a command line. A run that watches is stopped after so many polls.
def execute (w : World σ) (i : Invocation) (m : Measures) (polls : Nat) (scene : Scene σ) :
    Except CommandFault CommandEnd × EngineState σ :=
  match endOrArguments i.words with
  | .error e => (.ok e, EngineState.start scene)
  | .ok a => runWith w i m polls a scene

end CommandLine

end GraphqlArtifacts
