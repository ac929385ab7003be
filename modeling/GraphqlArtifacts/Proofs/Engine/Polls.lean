import Mathlib.Logic.Function.Iterate
import GraphqlArtifacts.Proofs.Engine.Steps

namespace GraphqlArtifacts

open EngineState

namespace Plan

-- The plans that a run takes on: tables of sets and of outputs that pass the check.
structure Accepted (p : Plan) : Prop where
  check : p.check = .ok ()
  fileSets : (p.fileSets.map Prod.fst).Nodup
  outputs : (p.outputs.map Prod.fst).Nodup

variable {p : Plan} {outs : List (String × Output)} {out n : String} {o : Output}
  {names : List String}

theorem isSome_lookup_of_checkSets (h : p.checkSets out names = .ok ()) (hm : n ∈ names) :
    (Data.lookup n p.fileSets).isSome := by
  induction names
  case nil => simp at hm
  case cons name names hi =>
    unfold checkSets at h
    split at h
    case isFalse => simp at h
    case isTrue hl =>
      cases List.mem_cons.mp hm
      case inl he => exact he ▸ hl
      case inr hm => exact hi h hm

theorem isSome_lookup_of_checkOutputs (h : p.checkOutputs outs = .ok ()) (hm : (out, o) ∈ outs)
    (hn : n ∈ o.sets) : (Data.lookup n p.fileSets).isSome := by
  induction outs
  case nil => simp at hm
  case cons head outs hi =>
    have ⟨out', o'⟩ := head
    simp only [checkOutputs, bind, Except.bind] at h
    cases hc : p.checkSets out' o'.sets <;> simp only [hc] at h
    case error => cases h
    case ok =>
      split at h
      case isTrue => cases h
      case isFalse =>
        cases List.mem_cons.mp hm
        case inl he => cases he; exact isSome_lookup_of_checkSets hc hn
        case inr hm => exact hi h hm

theorem Accepted.isSome_lookup (h : p.Accepted) (hm : (out, o) ∈ p.outputs) (hn : n ∈ o.sets) :
    (Data.lookup n p.fileSets).isSome :=
  isSome_lookup_of_checkOutputs h.check hm hn

-- The outputs that depend on one of some sets.
def affected (p : Plan) (changed : List String) : List String :=
  (p.outputs.filter fun (_, o) => o.sets.any changed.contains).map Prod.fst

theorem mem_affected (h : p.Accepted) {changed : List String} (hl : Data.lookup out p.outputs = some o) :
    out ∈ p.affected changed ↔ ∃ n ∈ o.sets, n ∈ changed := by
  simp only [affected, List.mem_map, List.mem_filter, Prod.exists, exists_and_right, exists_eq_right]
  constructor
  · intro ⟨o', hm, ha⟩
    have := Data.lookup_of_mem h.outputs hm
    simp_all
  · intro ⟨n, hn, hc⟩
    exact ⟨o, Data.mem_of_lookup hl, by simpa using ⟨n, hn, hc⟩⟩

end Plan

namespace Engine

variable {σ : Type} {w : World σ} {p : Plan} {s s₁ s' : EngineState σ} {name : String}
  {e : EngineFault} {changed : List String} {outs : List (String × Output)} {o : Output} {schema : Schema}

theorem exec_reportEach {α : Type} (f : α → Event) (l : List α) :
    exec (l.forM fun a => report (f a)) s = (.ok (), { s with events := s.events ++ l.map f }) := by
  induction l generalizing s
  case nil => simp
  case cons a l hi =>
    rw [exec_forM_cons, exec_bind_of_ok (exec_report _), hi]
    simp [reported]

theorem writeOutput_wrote : ∃ outcome s',
    exec (writeOutput p name o schema) s = (.ok outcome, s') ∧ Wrote [name] s s' := by
  simp only [writeOutput, exec_bind, exec_get, exec_set]
  rcases ArtifactWriter.run o.writer p.onlyValidate (inputOf o schema s) s.scene.tree with ⟨e | c, t⟩
  case error =>
    refine ⟨_, _, rfl, ⟨rfl, rfl, rfl, rfl, _, List.append_assoc _ _ _, rfl⟩⟩
  case ok =>
    simp only [exec_bind, exec_reportEach]
    refine ⟨_, _, rfl, ⟨rfl, rfl, rfl, rfl, _, List.append_assoc _ _ _, ?_⟩⟩
    rw [List.filter_append, List.filter_eq_nil_iff.mpr]
    · rfl
    · simp [Event.isStep]

theorem compile_wrote (ha : p.Accepted) (hm : (name, o) ∈ p.outputs) : ∃ outcome s',
    exec (compile p name) s = (.ok outcome, s') ∧ Wrote [name] s s' := by
  have hs := ha.isSome_lookup hm List.mem_cons_self
  have ⟨set, hs⟩ := Option.isSome_iff_exists.mp hs
  simp only [compile, Data.lookup_of_mem ha.outputs hm, hs]
  exact writeOutput_wrote

theorem compileEach_wrote (ha : p.Accepted) : ∃ outcome s',
    exec (compileEach p) s = (.ok outcome, s') ∧ Wrote (p.outputs.map Prod.fst) s s' := by
  suffices h : ∀ outs ⊆ p.outputs, ∀ s : EngineState σ, ∃ outcomes s',
      exec (outs.mapM fun (name, _) => compile p name) s = (.ok outcomes, s') ∧
        Wrote (outs.map Prod.fst) s s' by
    have ⟨outcomes, s', he, hw⟩ := h p.outputs (List.Subset.refl _) s
    exact ⟨_, s', exec_bind_of_ok he, hw⟩
  intro outs hm
  induction outs
  case nil => exact fun s => ⟨[], s, rfl, .refl s⟩
  case cons head outs hi =>
    intro s
    have ⟨outcome, s₁, he₁, hw₁⟩ := compile_wrote (s := s) ha (hm List.mem_cons_self)
    have ⟨outcomes, s', he, hw⟩ := hi (List.subset_of_cons_subset hm) s₁
    refine ⟨outcome :: outcomes, s', ?_, hw₁.trans hw⟩
    rw [List.mapM_cons, exec_bind_of_ok he₁, exec_bind_of_ok he, exec_pure]

theorem compileAffected_wrote (ha : p.Accepted) (changed : List String) : ∃ s',
    exec (compileAffected p changed) s = (.ok (), s') ∧ Wrote (p.affected changed) s s' := by
  simp only [compileAffected, Plan.affected]
  suffices h : ∀ outs ⊆ p.outputs, ∀ s : EngineState σ, ∃ s',
      exec (outs.forM fun (name, o) =>
        if o.sets.any changed.contains then discard (compile p name) else pure ()) s = (.ok (), s') ∧
        Wrote ((outs.filter fun (_, o) => o.sets.any changed.contains).map Prod.fst) s s' from
    h p.outputs (List.Subset.refl _) s
  intro outs hm
  induction outs
  case nil => exact fun s => ⟨s, rfl, .refl s⟩
  case cons head outs hi =>
    intro s
    have ⟨name, o⟩ := head
    have ht := List.subset_of_cons_subset hm
    by_cases hc : o.sets.any changed.contains
    · have ⟨outcome, s₁, he₁, hw₁⟩ := compile_wrote (s := s) ha (hm List.mem_cons_self)
      have ⟨s', he, hw⟩ := hi ht s₁
      refine ⟨s', ?_, by simpa [hc] using hw₁.trans hw⟩
      rw [exec_forM_cons, exec_bind]
      simp only [hc, if_true, exec_discard, he₁]
      exact he
    · have ⟨s', he, hw⟩ := hi ht s
      refine ⟨s', ?_, by simpa [hc] using hw⟩
      rw [exec_forM_cons, exec_bind]
      simp only [hc]
      exact he

theorem compileAll_of_ok (ha : p.Accepted)
    (h : exec (parseEach w p (p.fileSets.map Prod.fst)) s = (.ok (), s₁)) : ∃ outcome s',
    exec (compileAll w p) s = (.ok outcome, s') ∧ Wrote (p.outputs.map Prod.fst) s₁ s' := by
  have ⟨outcome, s', he, hw⟩ := compileEach_wrote (s := s₁) ha
  refine ⟨outcome, s', ?_, hw⟩
  rw [compileAll, exec_bind_of_ok (exec_recovering_of_ok h)]
  exact he

theorem compileAll_of_error
    (h : exec (parseEach w p (p.fileSets.map Prod.fst)) s = (.error e, s₁)) :
    ∃ r s', exec (compileAll w p) s = (r, s') ∧ Wrote [] s₁ s' ∧
      (e.IsRecoverable → r = .ok .error) := by
  by_cases hc : e.IsRecoverable
  · refine ⟨_, _, exec_bind_of_ok (exec_recovering_of_error h hc), ?_, fun _ => rfl⟩
    exact .reported nofun
  · obtain ⟨c, rfl⟩ := EngineFault.exists_configuration hc
    have hr : exec (recovering "Error parsing documents" _) s = _ := exec_recovering_of_configuration h
    exact ⟨_, _, exec_bind_of_error hr, .refl _, fun hc => absurd rfl (hc c)⟩

theorem poll_of_ok (ha : p.Accepted)
    (h : exec (parseChanged w p) (s.paused w) = (.ok changed, s₁)) : ∃ s',
    exec (poll w p) s = (.ok (), s') ∧ Wrote (p.affected changed) s₁ s' := by
  have ⟨s', he, hw⟩ := compileAffected_wrote (s := s₁) ha changed
  have hr : exec (recovering "Error while watching" (parseChanged w p)) _ = _ :=
    exec_recovering_of_ok h
  exact ⟨s', (exec_bind_of_ok (exec_modify _ _)).trans <| (exec_bind_of_ok hr).trans he, hw⟩

theorem poll_of_error (hs : p.hasService)
    (h : exec (parseChanged w p) (s.paused w) = (.error e, s₁)) :
    exec (poll w p) s = (.ok (), s₁.reported (.error "Error while watching" e)) := by
  have hc := parseChanged_recoverable hs _ _ _ h
  exact (exec_bind_of_ok (exec_modify _ _)).trans <|
    exec_bind_of_ok (exec_recovering_of_error h hc)

-- The state after a poll. No poll ends the watch.
def afterPoll (w : World σ) (p : Plan) (s : EngineState σ) : EngineState σ :=
  (exec (poll w p) s).2

theorem exec_poll (ha : p.Accepted) (hs : p.hasService) :
    exec (poll w p) s = (.ok (), afterPoll w p s) := by
  rcases h : exec (parseChanged w p) (s.paused w) with ⟨e | changed, s₁⟩
  case error => rw [afterPoll, poll_of_error hs h]
  case ok =>
    have ⟨s', he, _⟩ := poll_of_ok ha h
    rw [afterPoll, he]

-- A poll parses some sets and writes some outputs: those that depend on a set that changed, unless
-- there was a fault, and then none.
theorem afterPoll_steps (ha : p.Accepted) (hs : p.hasService) (s : EngineState σ) :
    ∃ done outs s₁, Parsed done (s.paused w) s₁ ∧ Wrote outs s₁ (afterPoll w p s) ∧
      ((∃ e, exec (parseChanged w p) (s.paused w) = (.error e, s₁) ∧ outs = []) ∨
        ∃ changed, exec (parseChanged w p) (s.paused w) = (.ok changed, s₁) ∧
          done = w.order.apply changed ∧ outs = p.affected changed) := by
  rcases h : exec (parseChanged w p) (s.paused w) with ⟨e | changed, s₁⟩
  all_goals have ⟨done, hp, hd⟩ := parseChanged_parsed h
  case error =>
    refine ⟨done, [], s₁, hp, ?_, .inl ⟨e, rfl, rfl⟩⟩
    rw [afterPoll, poll_of_error hs h]
    exact .reported nofun
  case ok =>
    have ⟨s', he, hw⟩ := poll_of_ok ha h
    refine ⟨done, p.affected changed, s₁, hp, ?_, .inr ⟨changed, rfl, hd _ rfl, rfl⟩⟩
    rwa [afterPoll, he]

theorem exec_pollTimes (ha : p.Accepted) (hs : p.hasService) (n : Nat) :
    exec (pollTimes w p n) s = (.ok (), (afterPoll w p)^[n] s) := by
  induction n generalizing s
  case zero => rfl
  case succ n hi => rw [pollTimes, exec_bind_of_ok (exec_poll ha hs), hi]; rfl

-- The states in which all is compiled, and in which a watch is after so many polls.
def compiled (w : World σ) (p : Plan) (scene : Scene σ) : EngineState σ :=
  (exec (compileAll w p) (.start scene)).2

def watched (w : World σ) (p : Plan) (scene : Scene σ) (polls : Nat) : EngineState σ :=
  (exec (watchAll w p polls) (.start scene)).2

variable {scene : Scene σ} {polls : Nat}

theorem exec_compileAll (ha : p.Accepted) (hs : p.hasService) : ∃ outcome,
    exec (compileAll w p) (.start scene) = (.ok outcome, compiled w p scene) := by
  rcases h : exec (parseEach w p (p.fileSets.map Prod.fst)) (.start scene) with ⟨e | _, s₁⟩
  case error =>
    have ⟨r, s', he, _, hr⟩ := compileAll_of_error h
    have hr := hr <| parseEach_recoverable hs _ _ _ _ h
    exact ⟨_, by rw [compiled, he, hr]⟩
  case ok =>
    have ⟨outcome, s', he, _⟩ := compileAll_of_ok ha h
    exact ⟨outcome, by rw [compiled, he]⟩

theorem exec_watchAll (ha : p.Accepted) (hs : p.hasService) :
    exec (watchAll w p polls) (.start scene) = (.ok (), (afterPoll w p)^[polls]
      ((compiled w p scene).reported (.message "Watching for changes..."))) := by
  have ⟨outcome, he⟩ : ∃ outcome, exec (compileAll w p) (.start scene) = (.ok outcome, _) :=
    exec_compileAll ha hs
  simp only [watchAll, hs, Bool.not_true, Bool.false_eq_true, if_false]
  rw [exec_bind, exec_discard, he]
  exact (exec_bind_of_ok (exec_report _)).trans (exec_pollTimes ha hs polls)

theorem watched_zero (ha : p.Accepted) (hs : p.hasService) : watched w p scene 0 =
    (compiled w p scene).reported (.message "Watching for changes...") := by
  rw [watched, exec_watchAll ha hs, Function.iterate_zero, id]

theorem watched_succ (ha : p.Accepted) (hs : p.hasService) :
    watched w p scene (polls + 1) = afterPoll w p (watched w p scene polls) := by
  simp only [watched, exec_watchAll ha hs, Function.iterate_succ_apply']

-- A fault that can be recovered from does not leave a step that recovers.
theorem recovering_raises {α : Type} {caption : String} (step : Engine σ α) :
    Raises (¬ ·.IsRecoverable) (recovering caption step) := by
  intro s e s' h hc
  rcases hs : exec step s with ⟨e' | a, s₁⟩
  case ok => cases (exec_recovering_of_ok hs).symm.trans h
  case error =>
    by_cases hc' : e'.IsRecoverable
    case pos => cases (exec_recovering_of_error hs hc').symm.trans h
    case neg =>
      obtain ⟨c, rfl⟩ := EngineFault.exists_configuration hc'
      cases (exec_recovering_of_configuration hs).symm.trans h
      exact hc c rfl

section

variable (ha : p.Accepted)

include ha

theorem compileAll_raises : Raises (¬ ·.IsRecoverable) (compileAll w p) := by
  refine .bind (recovering_raises _) fun parsed => ?_
  cases parsed
  case none => exact .pure _
  case some =>
    refine .of_ok fun s => ?_
    have ⟨outcome, s', he, _⟩ := compileEach_wrote (s := s) ha
    exact ⟨outcome, s', he⟩

theorem poll_raises : Raises (¬ ·.IsRecoverable) (poll w p) := by
  refine .bind (.modify _) fun _ => .bind (recovering_raises _) fun changed => ?_
  cases changed
  case none => exact .pure _
  case some changed =>
    refine .of_ok fun s => ?_
    have ⟨s', he, _⟩ := compileAffected_wrote (s := s) ha changed
    exact ⟨(), s', he⟩

theorem pollTimes_raises (n : Nat) : Raises (¬ ·.IsRecoverable) (pollTimes w p n) := by
  induction n
  case zero      => exact .pure _
  case succ n hi => exact .bind (poll_raises ha) fun _ => hi

theorem watchAll_raises (polls : Nat) : Raises (¬ ·.IsRecoverable) (watchAll w p polls) := by
  have hw : Raises (¬ ·.IsRecoverable) (do
      discard (compileAll w p)
      report (.message "Watching for changes...")
      pollTimes w p polls) :=
    .bind (.discard <| compileAll_raises ha) fun _ => .bind (.modify _) fun _ =>
      pollTimes_raises ha polls
  unfold watchAll
  split
  · exact .bind (.throw fun hc => hc _ rfl) fun _ => hw
  · exact hw

end

end Engine

end GraphqlArtifacts
