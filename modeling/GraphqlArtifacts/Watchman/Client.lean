import GraphqlArtifacts.Files.Path
import GraphqlArtifacts.Watchman.Response

-- Talking to the watch service. A directory is watched by the first command that needs it; the
-- watch is kept for later commands. A command that fails keeps nothing.

namespace GraphqlArtifacts

-- What the service answers to the words of a command, and what becomes of the world by then.
abbrev WatchService (σ : Type) := List Data → σ → Except WatchmanFault Data × σ

-- A watched directory: the root of its watch, and the way there from the root.
structure Watch where
  root : String
  relative : Option Data
  deriving Repr

abbrev Watches := List (Path × Watch)

-- The files that a query finds, and the time at which it was answered.
structure QueryResult where
  files : List String
  clock : String
  deriving DecidableEq, Repr

namespace Watchman

-- Commands after one another. What was kept stays when one fails.
abbrev Talk (σ α : Type) := ExceptT WatchmanFault (StateM (Watches × σ)) α

variable {σ : Type}

-- What is left of a step that may fail, as a part of a talk.
def ofStep (step : Except WatchmanFault α) : Talk σ α :=
  ExceptT.mk (pure step)

def command (service : WatchService σ) (words : List Data) : Talk σ Data := do
  let (watches, s) ← get
  let (answer, s) := service words s
  set (watches, s)
  ofStep answer

def watchOf (answer : Data) : Except WatchmanFault Watch := do
  let root ← required "watch" answer
  return ⟨root.display, ← optional "relative_path" answer⟩

def watchProject (service : WatchService σ) (directory : Path) : Talk σ Watch := do
  let (watches, _) ← get
  match watches.find? (·.1 == directory) with
  | some (_, watch) => return watch
  | none =>
    let answer ← command service [.text "watch-project", .text directory.text]
    let watch ← ofStep (watchOf answer)
    modify fun (watches, s) => (watches ++ [(directory, watch)], s)
    return watch

-- The time by the watch of a directory.
def clock (service : WatchService σ) (directory : Path) : Talk σ String := do
  let watch ← watchProject service directory
  let answer ← command service [.text "clock", .text watch.root]
  return (← ofStep (required "clock" answer)).display

-- What a query asks for: files below the directory that an expression accepts, all of them or
-- those that changed since a time.
def querySpec (watch : Watch) (expression : Data) (since : Option String) : Data :=
  let relative := (watch.relative.filter Data.holds).toList.map ("relative_root", ·)
  let since := since.toList.map fun clock => ("since", Data.text clock)
  .table ([("expression", expression), ("fields", .list [.text "name"])] ++ relative ++ since)

-- The result in the answer to a query.
def resultOf (answer : Data) : Except WatchmanFault QueryResult := do
  let files ← names ((← optional "files" answer).getD (.list []))
  return ⟨files, (← required "clock" answer).display⟩

def query (service : WatchService σ) (directory : Path) (expression : Data)
    (since : Option String) : Talk σ QueryResult := do
  let watch ← watchProject service directory
  let answer ← command service
    [.text "query", .text watch.root, querySpec watch expression since]
  ofStep (resultOf answer)

-- Whether the service is installed and tells its version.
def isAvailable (service : WatchService σ) (installed : Bool) : Talk σ Bool :=
  if installed then
    tryCatch (command service [.text "version"] *> pure true) fun
      | .service _ => pure false
      | e => throw e
  else
    pure false

end Watchman

end GraphqlArtifacts
