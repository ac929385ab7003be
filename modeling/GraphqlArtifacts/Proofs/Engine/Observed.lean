import GraphqlArtifacts.Proofs.Engine.Steps

-- A run that keeps a log of what it asks the service about its sets, and of the answers. But for
-- the log it is the run of the engine.

namespace GraphqlArtifacts

-- What is logged: that a poll begins, that the service is asked for the time in a directory, and
-- that it is asked for files of a set, for all or for those that changed since a time.
inductive Exchange
  | pause
  | clock (directory : Path) (answer : Except EngineFault String)
  | query (name : String) (since : Option String) (answer : Except EngineFault QueryResult)

abbrev Observed (σ α : Type) := ExceptT EngineFault (StateM (EngineState σ × List Exchange)) α

-- What is done with a runner.
inductive Use
  | parse (name : String)
  | compile (name : String)
  | compileAll
  | watch (polls : Nat)

namespace Engine

variable {σ α : Type}

-- Each use begins where the one before it ended, in whatever way that was.
def use (w : World σ) (p : Plan) : Use → Engine σ Unit
  | .parse name   => discard (parse w p name)
  | .compile name => discard (compile p name)
  | .compileAll   => discard (compileAll w p)
  | .watch polls  => watchAll w p polls

def useAll (w : World σ) (p : Plan) (uses : List Use) : Engine σ Unit :=
  uses.forM fun u => tryCatch (use w p u) fun _ => pure ()

end Engine

namespace Observed

variable {σ α β : Type}

-- A step of the engine, with what is logged of its outcome.
def noting (note : Except EngineFault α → List Exchange) (step : Engine σ α) : Observed σ α :=
  fun (s, log) =>
    let (outcome, s) := exec step s
    (outcome, (s, log ++ note outcome))

-- A step about which the service is not asked.
def silently (step : Engine σ α) : Observed σ α :=
  noting (fun _ => []) step

def clock (w : World σ) (directory : Path) : Observed σ String :=
  noting (fun answer => [.clock directory answer]) <|
    Engine.talk (Watchman.clock w.service directory)

-- Asks for files of a set, and keeps the time of the answer.
def query (w : World σ) (name : String) (set : FileSet) (expression : Data)
    (since : Option String) : Observed σ (List String) := do
  let result ← noting (fun answer => [.query name since answer]) <|
    Engine.talk (Watchman.query w.service set.base expression since)
  silently <| modify fun s => { s with clocks := Data.insert name result.clock s.clocks }
  return result.files

def listFiles (w : World σ) (p : Plan) (name : String) (set : FileSet) :
    Observed σ (List String) :=
  match set.files, set.expression with
  | some files, _ => pure files
  | none, none => pure []
  | none, some expression => do
    if !p.hasService then throw (.configuration (.parserNeedsClient name))
    query w name set expression none

def parse (w : World σ) (p : Plan) (name : String) : Observed σ (List DocumentFile) := do
  match Data.lookup name p.fileSets with
  | none => throw (.unknownName name)
  | some set =>
    let files ← listFiles w p name set
    silently do
      let files ← Engine.choose w set files
      let documents ← Engine.readAll w set files
      modify (EngineState.keep name documents)
      return documents

def parseEach (w : World σ) (p : Plan) (names : List String) : Observed σ Unit :=
  names.forM fun name => discard (parse w p name)

def changesOf (w : World σ) (name : String) (set : FileSet) (expression : Data) :
    Observed σ (List String) := do
  let since ← match Data.lookup name (← get).1.clocks with
    | some clock => pure clock
    | none => clock w set.base
  query w name set expression (some since)

def changedSets (w : World σ) (p : Plan) : List (String × FileSet) → Observed σ (List String)
  | [] => pure []
  | (name, set) :: rest =>
    match set.expression with
    | none => changedSets w p rest
    | some expression => do
      let files ← changesOf w name set expression
      let later ← changedSets w p rest
      return if files.all p.generates then later else name :: later

def parseChanged (w : World σ) (p : Plan) : Observed σ (List String) := do
  let changed ← changedSets w p p.fileSets
  parseEach w p (w.order.apply changed)
  return changed

def recovering (caption : String) (step : Observed σ α) : Observed σ (Option α) :=
  tryCatch (some <$> step) fun
    | .configuration e => throw (.configuration e)
    | e => silently do
      Engine.report (.error caption e)
      return none

def compileAll (w : World σ) (p : Plan) : Observed σ Outcome := do
  let parsed ← recovering "Error parsing documents" (parseEach w p (p.fileSets.map Prod.fst))
  match parsed with
  | none => return .error
  | some () => silently (Engine.compileEach p)

def poll (w : World σ) (p : Plan) : Observed σ Unit := do
  noting (fun _ => [.pause]) <| modify fun s => { s with scene := w.pause s.scene }
  match ← recovering "Error while watching" (parseChanged w p) with
  | none => pure ()
  | some changed => silently (Engine.compileAffected p changed)

def pollTimes (w : World σ) (p : Plan) : Nat → Observed σ Unit
  | 0 => pure ()
  | n + 1 => do
    poll w p
    pollTimes w p n

def watchAll (w : World σ) (p : Plan) (polls : Nat) : Observed σ Unit := do
  if !p.hasService then throw (.configuration .watchNeedsClient)
  discard (compileAll w p)
  silently <| Engine.report (.message "Watching for changes...")
  pollTimes w p polls

def use (w : World σ) (p : Plan) : Use → Observed σ Unit
  | .parse name   => discard (parse w p name)
  | .compile name => silently <| discard (Engine.compile p name)
  | .compileAll   => discard (compileAll w p)
  | .watch polls  => watchAll w p polls

def useAll (w : World σ) (p : Plan) (uses : List Use) : Observed σ Unit :=
  uses.forM fun u => tryCatch (use w p u) fun _ => pure ()

end Observed

-- A run with a log does what a run without one does.
def Erases {σ α : Type} (observed : Observed σ α) (step : Engine σ α) : Prop :=
  ∀ s log, ((exec observed (s, log)).1, (exec observed (s, log)).2.1) = exec step s

namespace Erases

variable {σ α β : Type} {observed : Observed σ α} {step : Engine σ α} {f : α → Observed σ β}
  {g : α → Engine σ β}

theorem noting (note : Except EngineFault α → List Exchange) :
    Erases (Observed.noting note step) step :=
  fun _ _ => rfl

theorem silently : Erases (Observed.silently step) step :=
  noting _

theorem pure (a : α) : Erases (pure a : Observed σ α) (pure a) :=
  fun _ _ => rfl

theorem throw (e : EngineFault) : Erases (throw e : Observed σ α) (throw e) :=
  fun _ _ => rfl

theorem bind (h : Erases observed step) (hf : ∀ a, Erases (f a) (g a)) :
    Erases (observed >>= f) (step >>= g) := by
  intro s log
  have h := h s log
  rw [exec_bind, exec_bind, ← h]
  rcases exec observed (s, log) with ⟨_ | a, s', log'⟩
  case error => rfl
  case ok    => exact hf a s' log'

theorem map (h : Erases observed step) (k : α → β) : Erases (k <$> observed) (k <$> step) := by
  intro s log
  rw [exec_map, exec_map, ← h s log]

theorem discard (h : Erases observed step) : Erases (discard observed) (discard step) :=
  h.map _

theorem forM {γ : Type} {l : List γ} {f : γ → Observed σ PUnit} {g : γ → Engine σ PUnit}
    (h : ∀ c, Erases (f c) (g c)) : Erases (l.forM f) (l.forM g) := by
  induction l
  case nil         => exact .pure _
  case cons c l hi => exact .bind (h c) fun _ => hi

theorem tryCatch {f : EngineFault → Observed σ α} {g : EngineFault → Engine σ α}
    (h : Erases observed step) (hf : ∀ e, Erases (f e) (g e)) :
    Erases (tryCatch observed f) (tryCatch step g) := by
  intro s log
  have h := h s log
  rw [exec_tryCatch, exec_tryCatch, ← h]
  rcases exec observed (s, log) with ⟨e | _, s', log'⟩
  case error => exact hf e s' log'
  case ok    => rfl

end Erases

namespace Observed

variable {σ α : Type} {w : World σ} {p : Plan} {name : String} {set : FileSet} {expression : Data}
  {since : Option String}

theorem query_erases : Erases (query w name set expression since) (do
    let result ← Engine.talk (Watchman.query w.service set.base expression since)
    modify fun s => { s with clocks := Data.insert name result.clock s.clocks }
    return result.files) :=
  .bind (.noting _) fun _ => .bind .silently fun _ => .pure _

theorem listFiles_erases : Erases (listFiles w p name set) (Engine.listFiles w p name set) := by
  obtain ⟨_, _, _, _, _ | files, _ | expression⟩ := set
  case none.none => exact .pure _
  case none.some =>
    unfold listFiles Engine.listFiles
    cases p.hasService
    case false => exact .bind (.throw _) fun _ => query_erases
    case true  => exact query_erases
  all_goals exact .pure _

theorem parse_erases : Erases (parse w p name) (Engine.parse w p name) := by
  unfold parse Engine.parse
  cases hl : Data.lookup name p.fileSets
  case none => exact .throw _
  case some set =>
    simp only [Engine.readSet, bind_assoc]
    exact .bind listFiles_erases fun _ => .silently

theorem parseEach_erases (names : List String) :
    Erases (parseEach w p names) (Engine.parseEach w p names) :=
  .forM fun _ => .discard parse_erases

theorem changesOf_erases :
    Erases (changesOf w name set expression) (Engine.changesOf w name set expression) := by
  intro s log
  unfold changesOf Engine.changesOf
  rw [exec_bind_of_ok (exec_get _), exec_bind_of_ok (exec_get _)]
  simp only []
  cases Data.lookup name s.clocks
  case none       => exact (Erases.noting _).bind (fun _ => query_erases) s log
  case some clock => exact (Erases.pure clock).bind (fun _ => query_erases) s log

theorem changedSets_erases (sets : List (String × FileSet)) :
    Erases (changedSets w p sets) (Engine.changedSets w p sets) := by
  induction sets
  case nil => exact .pure _
  case cons head rest hi =>
    obtain ⟨name, set⟩ := head
    rcases he : set.expression with _ | expression
    all_goals simp only [changedSets, Engine.changedSets, he]
    case none => exact hi
    case some => exact .bind changesOf_erases fun _ => .bind hi fun _ => .pure _

theorem parseChanged_erases : Erases (parseChanged w p) (Engine.parseChanged w p) :=
  .bind (changedSets_erases _) fun _ => .bind (parseEach_erases _) fun _ => .pure _

theorem recovering_erases {caption : String} {observed : Observed σ α} {step : Engine σ α}
    (h : Erases observed step) :
    Erases (recovering caption observed) (Engine.recovering caption step) := by
  refine .tryCatch (h.map _) fun e => ?_
  cases e
  case configuration => exact .throw _
  all_goals exact .silently

theorem compileAll_erases : Erases (compileAll w p) (Engine.compileAll w p) := by
  refine .bind (recovering_erases <| parseEach_erases _) fun parsed => ?_
  cases parsed
  case none => exact .pure _
  case some => exact .silently

theorem poll_erases : Erases (poll w p) (Engine.poll w p) := by
  refine .bind (.noting _) fun _ => .bind (recovering_erases parseChanged_erases) fun changed => ?_
  cases changed
  case none => exact .pure _
  case some => exact .silently

theorem pollTimes_erases (n : Nat) : Erases (pollTimes w p n) (Engine.pollTimes w p n) := by
  induction n
  case zero      => exact .pure _
  case succ n hi => exact .bind poll_erases fun _ => hi

theorem watchAll_erases (polls : Nat) :
    Erases (watchAll w p polls) (Engine.watchAll w p polls) := by
  have h : Erases (do
      discard (compileAll w p)
      silently <| Engine.report (.message "Watching for changes...")
      pollTimes w p polls) (do
      discard (Engine.compileAll w p)
      Engine.report (.message "Watching for changes...")
      Engine.pollTimes w p polls) :=
    .bind compileAll_erases.discard fun _ => .bind .silently fun _ => pollTimes_erases polls
  unfold watchAll Engine.watchAll
  split
  · exact .bind (.throw _) fun _ => h
  · exact h

theorem use_erases (u : Use) : Erases (use w p u) (Engine.use w p u) := by
  cases u
  case parse      => exact parse_erases.discard
  case compile    => exact .silently
  case compileAll => exact compileAll_erases.discard
  case watch      => exact watchAll_erases _

theorem useAll_erases (uses : List Use) : Erases (useAll w p uses) (Engine.useAll w p uses) :=
  .forM fun u => .tryCatch (use_erases u) fun _ => .pure _

end Observed

end GraphqlArtifacts
