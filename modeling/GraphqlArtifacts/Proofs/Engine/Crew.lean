import GraphqlArtifacts.Proofs.Artifacts.Modes
import GraphqlArtifacts.Proofs.Engine.Polls

-- A run whose readers and writers may do anything. The engine is such a run, with its own readers
-- and writers.

namespace GraphqlArtifacts

open EngineState

-- What the writer of an output is given.
structure WriterTask where
  name : String
  output : Output
  set : FileSet
  documents : List DocumentFile
  baseDocuments : List DocumentFile

-- What came of a task: the messages on the way, and whether there are changes or why it failed.
structure Written where
  messages : List String
  result : Except EngineFault Bool

namespace Written

def verdict (d : Written) : Outcome :=
  match d.result with
  | .ok hasChanges => if hasChanges then .hasChanges else .noChanges
  | .error _       => .error

def faults (d : Written) (name : String) : List Event :=
  match d.result with
  | .ok _    => []
  | .error e => [.error s!"Error writing {name}" e]

def events (d : Written) (name : String) : List Event :=
  d.messages.map .message ++ d.faults name ++ [.written name]

end Written

-- How sets are read and outputs written. Readers may ask the service and may fail at any point, but
-- they do not report, and leave the documents of other sets alone. Writers may fail at any point.
structure Crew (σ : Type) where
  read : String → FileSet → Engine σ (List DocumentFile)
  silent : ∀ name set, Keeps Silent (read name set)
  write : WriterTask → Scene σ → Written × Scene σ

namespace Crew

variable {σ : Type}

def parse (c : Crew σ) (p : Plan) (name : String) : Engine σ (List DocumentFile) :=
  match Data.lookup name p.fileSets with
  | none     => throw (.unknownName name)
  | some set => do
    let documents ← c.read name set
    modify (keep name documents)
    return documents

def parseEach (c : Crew σ) (p : Plan) (names : List String) : Engine σ Unit :=
  names.forM fun name => discard (c.parse p name)

def writeOutput (c : Crew σ) (name : String) (o : Output) (set : FileSet) : Engine σ Outcome := do
  let s ← get
  let task := ⟨name, o, set, s.documentsOf o.fileSet, o.baseSets.flatMap s.documentsOf⟩
  let (done, scene) := c.write task s.scene
  modify fun s => { s with scene, events := s.events ++ done.events name }
  return done.verdict

def compile (c : Crew σ) (p : Plan) (name : String) : Engine σ Outcome :=
  match Data.lookup name p.outputs with
  | none   => throw (.unknownName name)
  | some o =>
    match Data.lookup o.fileSet p.fileSets with
    | none     => throw (.unknownName o.fileSet)
    | some set => c.writeOutput name o set

def compileEach (c : Crew σ) (p : Plan) : Engine σ Outcome := do
  return .combine (← p.outputs.mapM fun (name, _) => c.compile p name)

def compileAll (c : Crew σ) (p : Plan) : Engine σ Outcome := do
  let parsed ← Engine.recovering "Error parsing documents" (c.parseEach p (p.fileSets.map Prod.fst))
  match parsed with
  | none    => return .error
  | some () => c.compileEach p

-- The readers and writers of the engine.
def ofWorld (w : World σ) (p : Plan) : Crew σ where
  read := Engine.readSet w p
  silent name set := (Engine.allows_silent name).readSet set
  write task scene :=
    match ArtifactWriter.run task.output.writer p.onlyValidate
      ⟨task.set.schema, task.documents, task.baseDocuments⟩ scene.tree with
    | (.ok changes, tree) =>
      (⟨changes.messages p.onlyValidate, .ok changes.hasChanges⟩, { scene with tree })
    | (.error e, tree)    => (⟨[], .error (.write e)⟩, { scene with tree })

variable {w : World σ} {p : Plan} {name : String} {o : Output} {set : FileSet}

-- When the engine only looks for changes, its writers leave the scene as it is.
theorem ofWorld_looking (hv : p.onlyValidate) {task : WriterTask} {scene : Scene σ} :
    ((ofWorld w p).write task scene).2 = scene := by
  have hl := @ArtifactWriter.run_looking task.output.writer
    ⟨task.set.schema, task.documents, task.baseDocuments⟩ scene.tree
  rcases hr : ArtifactWriter.run task.output.writer true
    ⟨task.set.schema, task.documents, task.baseDocuments⟩ scene.tree with ⟨_ | _, tree⟩
  all_goals
    rw [hr] at hl
    simp only [ofWorld, hv, hr]
    exact congrArg (Scene.mk · scene.others) hl

theorem parse_ofWorld : (ofWorld w p).parse p name = Engine.parse w p name := by
  unfold parse Engine.parse
  cases Data.lookup name p.fileSets <;> rfl

theorem writeOutput_ofWorld :
    (ofWorld w p).writeOutput name o set = Engine.writeOutput p name o set.schema := by
  refine exec_ext fun s => ?_
  simp only [writeOutput, Engine.writeOutput, ofWorld, exec_bind, exec_get, exec_set, exec_modify]
  let after (t : Tree) (outcome : Outcome) (events : List Event) : Except EngineFault Outcome × _ :=
    (.ok outcome, { s with scene := ⟨t, s.scene.others⟩, events })
  rcases hr : ArtifactWriter.run o.writer p.onlyValidate (Engine.inputOf o set.schema s) s.scene.tree
    with ⟨e | c, t⟩ <;> simp only [Engine.inputOf] at hr
  case error =>
    simp only [hr]
    exact congrArg (after t .error) (List.append_assoc ..).symm
  case ok =>
    simp only [hr, exec_bind, Engine.exec_reportEach]
    refine congrArg (after t (if c.hasChanges then .hasChanges else .noChanges)) ?_
    simp [Written.events, Written.faults, Event.written]

theorem compile_ofWorld : (ofWorld w p).compile p name = Engine.compile p name := by
  unfold compile Engine.compile
  cases Data.lookup name p.outputs
  case none   => rfl
  case some o =>
    cases hs : Data.lookup o.fileSet p.fileSets
    case none => simp [hs]
    case some => simp [hs, writeOutput_ofWorld]

theorem parseEach_ofWorld {names : List String} :
    (ofWorld w p).parseEach p names = Engine.parseEach w p names := by
  simp only [parseEach, Engine.parseEach, parse_ofWorld]

theorem compileEach_ofWorld : (ofWorld w p).compileEach p = Engine.compileEach p := by
  simp only [compileEach, Engine.compileEach, compile_ofWorld]

theorem compileAll_ofWorld : (ofWorld w p).compileAll p = Engine.compileAll w p := by
  have h (parsed : Option Unit) : (match parsed with
      | none    => pure .error
      | some () => (ofWorld w p).compileEach p) = (match parsed with
      | none    => pure .error
      | some () => Engine.compileEach p : Engine σ Outcome) := by
    rw [compileEach_ofWorld]
  unfold compileAll
  rw [parseEach_ofWorld]
  exact bind_congr h

end Crew

end GraphqlArtifacts
