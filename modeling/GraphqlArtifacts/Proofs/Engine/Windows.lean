import GraphqlArtifacts.Proofs.Engine.Inputs
import GraphqlArtifacts.Proofs.Engine.Observed

-- The times since which a run asks for changes. Between two answered queries about a set there is
-- no time at which a change is missed.

namespace GraphqlArtifacts

namespace Exchange

-- The time that a query about a set is answered with.
def time? (name : String) : Exchange → Option String
  | query n _ (.ok r) => if n = name then some r.clock else none
  | _                 => none

-- The time of the latest answer to a query about a set.
def latest? (name : String) (log : List Exchange) : Option String :=
  log.reverse.findSome? (time? name)

-- A time that a query about a set may continue from: that of the latest answer about the set, or if
-- there is none, the one that the service has just told for its directory.
def Continues (p : Plan) (log : List Exchange) (name since : String) : Prop :=
  match latest? name log with
  | some time => since = time
  | none      => ∃ set earlier, (name, set) ∈ p.fileSets ∧
    log = earlier ++ [clock set.base (.ok since)]

-- Each query for changes in a set continues from what is logged before it.
def Contiguous (p : Plan) (log : List Exchange) : Prop :=
  ∀ before after name since answer, log = before ++ query name (some since) answer :: after →
    Continues p before name since

variable {p : Plan} {log : List Exchange} {exchange : Exchange} {name : String}

theorem latest?_concat :
    latest? name (log ++ [exchange]) = (time? name exchange).or (latest? name log) := by
  cases h : time? name exchange <;> simp [latest?, h]

theorem Contiguous.concat (h : Contiguous p log)
    (hx : ∀ name since answer, exchange = query name (some since) answer →
      Continues p log name since) : Contiguous p (log ++ [exchange]) := by
  intro before after name since answer he
  obtain ⟨mid, rfl, _⟩ | ⟨mid, rfl, hm⟩ := append_eq_append_cons he
  · exact h before mid name since answer rfl
  · obtain ⟨rfl, he, _⟩ : mid = [] ∧ query name (some since) answer = exchange ∧ after = [] := by
      simpa [List.singleton_eq_append_iff] using hm
    exact (List.append_nil log).symm ▸ hx name since answer he.symm

end Exchange

open Exchange (time? latest? latest?_concat Continues Contiguous)

-- The times that are kept are those of the latest answers that are logged.
structure Synced {σ : Type} (p : Plan) (a : EngineState σ × List Exchange) : Prop where
  clocks : ∀ name, Data.lookup name a.1.clocks = latest? name a.2
  contiguous : Contiguous p a.2

-- What keeps that so.
def Syncs {σ : Type} (p : Plan) (a b : EngineState σ × List Exchange) : Prop :=
  Synced p a → Synced p b

instance {σ : Type} {p : Plan} : IsPreorder (EngineState σ × List Exchange) (Syncs p) where
  refl _ := id
  trans _ _ _ h₁ h₂ := h₂ ∘ h₁

def EngineState.SameClocks {σ : Type} (s s' : EngineState σ) : Prop :=
  s'.clocks = s.clocks

open EngineState (SameClocks)

instance {σ : Type} : IsPreorder (EngineState σ) SameClocks where
  refl _ := rfl
  trans _ _ _ h₁ h₂ := h₂.trans h₁

namespace Engine

variable {σ α : Type} {w : World σ} {p : Plan}

theorem reading_sameClocks (f : Tree → Except EngineFault α) : Keeps SameClocks (reading w f) := by
  intro s
  rw [exec_reading]
  cases f s.scene.tree <;> rfl

theorem compile_sameClocks (name : String) :
    Keeps SameClocks (compile p name : Engine σ Outcome) := by
  intro s
  unfold compile
  cases Data.lookup name p.outputs
  case none => rfl
  case some o =>
    cases hs : Data.lookup o.fileSet p.fileSets
    case none     => simp only [hs]; rfl
    case some set =>
      have ⟨_, _, he, hw⟩ : ∃ outcome s', exec (writeOutput p name o set.schema) s =
        (.ok outcome, s') ∧ EngineState.Wrote [name] s s' := writeOutput_wrote
      simp only [hs]
      rw [he]
      exact hw.clocks

theorem compileEach_sameClocks : Keeps SameClocks (compileEach p : Engine σ Outcome) :=
  .bind (.mapM fun _ _ => compile_sameClocks _) fun _ => .pure _

theorem compileAffected_sameClocks (changed : List String) :
    Keeps SameClocks (compileAffected p changed : Engine σ Unit) := by
  refine .forM fun ⟨name, o⟩ _ => ?_
  dsimp only
  split
  · exact .discard <| compile_sameClocks _
  · exact .pure _

end Engine

namespace Observed

open Engine

variable {σ α : Type} {w : World σ} {p : Plan} {s : EngineState σ} {log : List Exchange}
  {name : String} {set : FileSet} {expression : Data} {since : Option String}

theorem exec_noting (note : Except EngineFault α → List Exchange) (step : Engine σ α) :
    exec (noting note step) (s, log) =
      ((exec step s).1, ((exec step s).2, log ++ note (exec step s).1)) :=
  rfl

theorem silently_syncs {step : Engine σ α} (h : Keeps SameClocks step) :
    Keeps (Syncs p) (silently step) := by
  intro (s, log) hs
  simp only [silently, exec_noting, List.append_nil]
  exact ⟨fun name => h s ▸ hs.clocks name, hs.contiguous⟩

-- What is logged of anything but a query continues no query, and changes no time.
theorem noting_syncs {note : Except EngineFault α → Exchange} {step : Engine σ α}
    (h : Keeps SameClocks step) (hn : ∀ answer name since r, note answer ≠ .query name since r) :
    Keeps (Syncs p) (noting (fun answer => [note answer]) step) := by
  intro (s, log) hs
  rw [exec_noting]
  constructor
  case clocks =>
    intro name
    have ht : time? name (note (exec step s).1) = none := by
      cases hx : note (exec step s).1
      case query => exact (hn _ _ _ _ hx).elim
      all_goals rfl
    rw [latest?_concat, ht, Option.none_or, ← hs.clocks, h s]
  case contiguous => exact hs.contiguous.concat fun _ _ _ hx => (hn _ _ _ _ hx).elim

-- A query for all files, or for changes since a time that it may continue from.
theorem query_syncs (hs : Synced p (s, log))
    (hc : ∀ c, since = some c → Continues p log name c) :
    Synced p (exec (query w name set expression since) (s, log)).2 := by
  have hl (answer) : Contiguous p (log ++ [.query name since answer]) :=
    hs.contiguous.concat fun _ c _ hx => by
      cases hx
      exact hc c rfl
  have ht : (exec (talk (Watchman.query w.service set.base expression since)) s).2.clocks =
      s.clocks := rfl
  rw [query, exec_bind, exec_noting]
  rcases he : exec (talk (Watchman.query w.service set.base expression since)) s with ⟨e | r, s'⟩
  all_goals
    rw [he] at ht
    dsimp only
  case error =>
    refine ⟨fun n => ?_, hl _⟩
    rw [latest?_concat, show time? n (.query name since (.error e)) = none from rfl,
      Option.none_or, ← hs.clocks]
    exact congrArg _ ht
  case ok =>
    rw [exec_bind, silently, exec_noting, List.append_nil]
    refine ⟨fun n => ?_, hl _⟩
    have ht : s'.clocks = s.clocks := ht
    simp only [exec_modify, latest?_concat, time?, exec_pure, ht]
    by_cases hn : name = n
    case pos => simp [hn]
    case neg => simp [hn, Data.lookup_insert_of_ne (Ne.symm hn), hs.clocks n]

theorem clock_syncs (directory : Path) : Keeps (Syncs p) (clock w directory) :=
  noting_syncs (fun _ => rfl) fun _ _ _ _ => nofun

theorem changesOf_syncs (hm : (name, set) ∈ p.fileSets) :
    Keeps (Syncs p) (changesOf w name set expression) := by
  intro (s, log) hs
  rw [changesOf, exec_bind_of_ok (exec_get _)]
  have hl : Data.lookup name s.clocks = latest? name log := hs.clocks name
  cases hc : Data.lookup name s.clocks
  case some time =>
    refine query_syncs hs fun since he => ?_
    cases he
    simp [Continues, ← hl, hc]
  case none =>
    have hs' := clock_syncs (w := w) set.base (s, log) hs
    rw [clock, exec_noting] at hs'
    dsimp only
    rw [exec_bind, clock, exec_noting]
    generalize exec (talk (Watchman.clock w.service set.base)) s = told at hs' ⊢
    obtain ⟨_ | time, s'⟩ := told
    case error => exact hs'
    case ok =>
      refine query_syncs hs' fun since he => ?_
      cases he
      have hn : latest? name (log ++ [.clock set.base (.ok time)]) = none := by
        rw [latest?_concat, ← hl, hc]
        rfl
      rw [Continues, hn]
      exact ⟨set, log, hm, rfl⟩

theorem changedSets_syncs {sets : List (String × FileSet)} (h : sets ⊆ p.fileSets) :
    Keeps (Syncs p) (changedSets w p sets) := by
  induction sets
  case nil => exact .pure _
  case cons head rest hi =>
    have hi := hi <| List.subset_of_cons_subset h
    unfold changedSets
    split
    case h_1 => exact hi
    case h_2 =>
      exact .bind (changesOf_syncs <| h List.mem_cons_self) fun _ => .bind hi fun _ => .pure _

theorem listFiles_syncs : Keeps (Syncs p) (listFiles w p name set) := by
  have hq (expression : Data) : Keeps (Syncs p) (query w name set expression none) :=
    fun _ hs => query_syncs hs nofun
  unfold listFiles
  split
  case h_1 => exact .pure _
  case h_2 => exact .pure _
  case h_3 =>
    split
    · exact .bind (.throw _) fun _ => hq _
    · exact hq _

theorem parse_syncs : Keeps (Syncs p) (parse w p name) := by
  unfold parse
  split
  case h_1 => exact .throw _
  case h_2 =>
    refine .bind listFiles_syncs fun files => silently_syncs ?_
    exact .bind (choose_keeps reading_sameClocks _ _) fun _ =>
      .bind (readAll_keeps reading_sameClocks _ _) fun _ => .bind (fun _ => rfl) fun _ => .pure _

theorem parseEach_syncs (names : List String) : Keeps (Syncs p) (parseEach w p names) :=
  .forM fun _ _ => .discard parse_syncs

theorem parseChanged_syncs : Keeps (Syncs p) (parseChanged w p) :=
  .bind (changedSets_syncs <| List.Subset.refl _) fun _ => .bind (parseEach_syncs _) fun _ => .pure _

theorem recovering_syncs {caption : String} {observed : Observed σ α}
    (h : Keeps (Syncs p) observed) : Keeps (Syncs p) (recovering caption observed) := by
  refine .tryCatch ?_ fun e => ?_
  · intro a
    rw [exec_map]
    exact h a
  · split
    · exact .throw _
    · exact silently_syncs fun _ => rfl

theorem compileAll_syncs : Keeps (Syncs p) (compileAll w p) := by
  refine .bind (recovering_syncs <| parseEach_syncs _) fun parsed => ?_
  cases parsed
  case none => exact .pure _
  case some => exact silently_syncs compileEach_sameClocks

theorem poll_syncs : Keeps (Syncs p) (poll w p) := by
  refine .bind (noting_syncs (fun _ => rfl) fun _ _ _ _ => nofun) fun _ =>
    .bind (recovering_syncs parseChanged_syncs) fun changed => ?_
  cases changed
  case none         => exact .pure _
  case some changed => exact silently_syncs <| compileAffected_sameClocks changed

theorem pollTimes_syncs (n : Nat) : Keeps (Syncs p) (pollTimes w p n) := by
  induction n
  case zero      => exact .pure _
  case succ n hi => exact .bind poll_syncs fun _ => hi

theorem watchAll_syncs (polls : Nat) : Keeps (Syncs p) (watchAll w p polls) := by
  have h : Keeps (Syncs p) (do
      discard (compileAll w p)
      silently <| report (.message "Watching for changes...")
      pollTimes w p polls) :=
    .bind compileAll_syncs.discard fun _ => .bind (silently_syncs fun _ => rfl) fun _ =>
      pollTimes_syncs polls
  unfold watchAll
  split
  · exact .bind (.throw _) fun _ => h
  · exact h

theorem use_syncs (u : Use) : Keeps (Syncs p) (use w p u) := by
  cases u
  case parse      => exact parse_syncs.discard
  case compile    => exact silently_syncs (compile_sameClocks _).discard
  case compileAll => exact compileAll_syncs.discard
  case watch      => exact watchAll_syncs _

theorem useAll_syncs (uses : List Use) : Keeps (Syncs p) (useAll w p uses) :=
  .forM fun u _ => .tryCatch (use_syncs u) fun _ => .pure _

-- Whatever a runner is used for, and whatever fails in it, each query for changes in a set continues
-- from the latest answer about the set, or, if there is none, from a time told just before.
theorem useAll_contiguous (w : World σ) (p : Plan) (scene : Scene σ) (uses : List Use) :
    ∃ log, exec (useAll w p uses) (.start scene, []) =
        ((exec (Engine.useAll w p uses) (.start scene)).1,
          (exec (Engine.useAll w p uses) (.start scene)).2, log) ∧
      Contiguous p log := by
  have hs : Synced p (EngineState.start scene, []) :=
    ⟨fun _ => rfl, fun _ _ _ _ _ he => by simp at he⟩
  have hc : Synced p (exec (useAll w p uses) (.start scene, [])).2 := useAll_syncs uses _ hs
  exact ⟨_, by rw [← useAll_erases uses (.start scene) []], hc.contiguous⟩

end Observed

end GraphqlArtifacts
