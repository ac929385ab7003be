import GraphqlArtifacts.Engine.Outcome
import GraphqlArtifacts.Engine.Plan
import GraphqlArtifacts.Watchman.Client

-- The state of a run. The files and the watch service are not the run's own: others may change them
-- between any two of its steps.

namespace GraphqlArtifacts

-- The files, and the state of all else outside of a run.
structure Scene (σ : Type) where
  tree : Tree
  others : σ

-- An order in which names are gone through.
structure Rearrangement where
  apply : List String → List String
  perm : ∀ names, (apply names).Perm names

def Rearrangement.same : Rearrangement :=
  ⟨id, fun _ => .refl _⟩

-- How the world outside of a run behaves.
structure World (σ : Type) where
  service : WatchService (Scene σ)
  -- What others do between two readings of files, and in the pause between two polls.
  pass : Scene σ → Scene σ
  pause : Scene σ → Scene σ
  -- The order in which sets that changed are parsed, which is not the run's to choose.
  order : Rearrangement := .same

-- Why a step of a run fails.
inductive EngineFault
  | configuration (e : ConfigurationError)
  | unknownName (name : String)
  | watchman (e : WatchmanFault)
  | document (e : DocumentFault)
  | write (e : WriteFault)
  deriving Repr

namespace EngineFault

def message : EngineFault → String
  | .configuration e => e.message
  | .unknownName name => quoted name
  | .watchman e => e.message
  | .document e => e.message
  | .write e => e.message

def kindName : EngineFault → String
  | .configuration _ => "ConfigurationError"
  | .unknownName _ => "KeyError"
  | .watchman e => e.kindName
  | .document e => e.kindName
  | .write e => e.kindName

end EngineFault

-- What a run reports. A step that took its time is reported by name.
inductive Event
  | message (text : String)
  | time (name : String)
  | error (caption : String) (fault : EngineFault)
  deriving Repr

structure EngineState (σ : Type) where
  scene : Scene σ
  watches : Watches
  -- The documents of each set that was parsed, and the time of its last query.
  documents : List (String × List DocumentFile)
  clocks : List (String × String)
  events : List Event

namespace EngineState

def start (scene : Scene σ) : EngineState σ :=
  ⟨scene, [], [], [], []⟩

-- The documents of a set, none if it was not parsed.
def documentsOf (s : EngineState σ) (name : String) : List DocumentFile :=
  (Data.lookup name s.documents).getD []

end EngineState

-- Steps of a run. What was done stays done when one fails.
abbrev Engine (σ α : Type) := ExceptT EngineFault (StateM (EngineState σ)) α

namespace Engine

variable {σ : Type}

def ofStep (step : Except EngineFault α) : Engine σ α :=
  ExceptT.mk (pure step)

def report (e : Event) : Engine σ Unit :=
  modify fun s => { s with events := s.events ++ [e] }

-- A talk with the watch service.
def talk (t : Watchman.Talk (Scene σ) α) : Engine σ α := do
  let s ← get
  let (result, (watches, scene)) := t.run (s.watches, s.scene)
  set { s with watches, scene }
  ofStep (result.mapError .watchman)

-- Something that is read from the files as they are now; others go on after it.
def reading (w : World σ) (f : Tree → Except EngineFault α) : Engine σ α := do
  let result ← ofStep (f (← get).scene.tree)
  modify fun s => { s with scene := w.pass s.scene }
  return result

end Engine

end GraphqlArtifacts
