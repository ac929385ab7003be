import GraphqlArtifacts.Engine.Compile

-- Watching: after everything was compiled, the service is asked again and again which files
-- changed. Sets with changes are parsed anew, and the outputs that depend on them are written.

namespace GraphqlArtifacts

namespace Engine

variable {σ : Type}

-- Asks for the changes in a set since its last query, or since now.
def changesOf (w : World σ) (name : String) (set : FileSet) (expression : Data) :
    Engine σ (List String) := do
  let since ← match Data.lookup name (← get).clocks with
    | some clock => pure clock
    | none => talk (Watchman.clock w.service set.base)
  let result ← talk (Watchman.query w.service set.base expression (some since))
  modify fun s => { s with clocks := Data.insert name result.clock s.clocks }
  return result.files

-- The sets among some in which files changed that no output generates.
def changedSets (w : World σ) (p : Plan) : List (String × FileSet) → Engine σ (List String)
  | [] => pure []
  | (name, set) :: rest =>
    match set.expression with
    | none => changedSets w p rest
    | some expression => do
      let files ← changesOf w name set expression
      let later ← changedSets w p rest
      return if files.all p.generates then later else name :: later

-- Parses the sets that changed, in any order, and gives their names.
def parseChanged (w : World σ) (p : Plan) : Engine σ (List String) := do
  let changed ← changedSets w p p.fileSets
  parseEach w p (w.order.apply changed)
  return changed

-- Writes the outputs that depend on one of some sets.
def compileAffected (p : Plan) (changed : List String) : Engine σ Unit :=
  p.outputs.forM fun (name, o) =>
    if o.sets.any changed.contains then discard (compile p name) else pure ()

-- One look for changes, after a pause.
def poll (w : World σ) (p : Plan) : Engine σ Unit := do
  modify fun s => { s with scene := w.pause s.scene }
  match ← recovering "Error while watching" (parseChanged w p) with
  | none => pure ()
  | some changed => compileAffected p changed

def pollTimes (w : World σ) (p : Plan) : Nat → Engine σ Unit
  | 0 => pure ()
  | n + 1 => do
    poll w p
    pollTimes w p n

-- Compiles everything, then watches for so many polls.
def watchAll (w : World σ) (p : Plan) (polls : Nat) : Engine σ Unit := do
  if !p.hasService then throw (.configuration .watchNeedsClient)
  discard (compileAll w p)
  report (.message "Watching for changes...")
  pollTimes w p polls

end Engine

end GraphqlArtifacts
