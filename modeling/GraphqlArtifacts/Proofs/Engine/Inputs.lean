import GraphqlArtifacts.Language.Javascript
import GraphqlArtifacts.Proofs.Engine.Polls

namespace GraphqlArtifacts

open EngineState

namespace World

-- A service that goes through some answers whatever it is asked. Nobody edits files.
def scripted : World (List (Except WatchmanFault Data)) where
  service _ s :=
    match s.others with
    | []              => (.error (.service (.reported "no answer")), s)
    | answer :: later => (answer, { s with others := later })
  pass := id
  pause := id

-- An answer to each kind of command.
def answer (files : List String) : Except WatchmanFault Data :=
  .ok <| .table [("watch", .text "/"), ("clock", .text "c:1"), ("files", .list <| files.map .text)]

def refusal : Except WatchmanFault Data :=
  .error (.service (.reported "refused"))

end World

-- Modules whose operations refer to the documents in a second set.
def Plan.modules : Plan where
  fileSets := ["js", "graphql"].map fun name =>
    (name, ⟨⟨"/", []⟩, .documents, .empty, false, none, some (.text name)⟩)
  outputs := [("js", ⟨⟨.javascript, ⟨[], false⟩, none⟩, fun _ => false, "js", ["graphql"]⟩)]
  onlyValidate := false
  hasService := true

theorem Plan.modules_accepted : Plan.modules.Accepted where
  check := by decide
  fileSets := by decide
  outputs := by decide

namespace Engine

variable {σ : Type} {w : World σ} {p : Plan} {scene : Scene σ} {s s' : EngineState σ}
  {names : List String} {polls : Nat}

-- Whenever an output was written, each set that it depends on had been parsed before. What it was
-- written from are then documents of files, never the lack of a parse.
def Fed (p : Plan) (events : List Event) : Prop :=
  ∀ before after out o n, events = before ++ .written out :: after →
    Data.lookup out p.outputs = some o → n ∈ o.sets → .parsed n ∈ before

-- Each output with a change among its sets has the documents of all of them once the poll has
-- parsed those that changed.
def Complete (w : World σ) (p : Plan) (s : EngineState σ) : Prop :=
  ∀ changed s₁, exec (parseChanged w p) (s.paused w) = (.ok changed, s₁) →
    ∀ out o, Data.lookup out p.outputs = some o → (∃ n ∈ o.sets, n ∈ changed) →
      ∀ n ∈ o.sets, n ∈ changed ∨ (Data.lookup n s.documents).isSome

-- The sets with documents are those that are reported as parsed.
def Traced (s : EngineState σ) : Prop :=
  ∀ n, (Data.lookup n s.documents).isSome ↔ .parsed n ∈ s.events

namespace Traced

theorem start (scene : Scene σ) : Traced (.start scene) := by
  simp [Traced, EngineState.start]

theorem parsed (ht : Traced s) (h : Parsed names s s') : Traced s' := by
  intro n
  simp [h.documents, h.events, ht n, Event.parsed_inj, or_comm]

theorem wrote (ht : Traced s) (h : Wrote names s s') : Traced s' := by
  intro n
  have ⟨tail, he, hf⟩ := h.events
  simp [h.documents, he, ht n, Wrote.parsed_not_mem hf]

end Traced

namespace Fed

theorem append_iff {events tail : List Event} : Fed p (events ++ tail) ↔ Fed p events ∧
    ∀ before after out o n, tail = before ++ .written out :: after →
      Data.lookup out p.outputs = some o → n ∈ o.sets → .parsed n ∈ events ++ before := by
  constructor
  case mp =>
    intro h
    constructor
    · intro before after out o n he
      exact h before (after ++ tail) out o n <| by simp [he]
    · intro before after out o n he
      exact h (events ++ before) after out o n <| by simp [he]
  case mpr =>
    intro ⟨h, ht⟩ before after out o n he hl hn
    obtain ⟨mid, rfl, _⟩ | ⟨mid, rfl, hm⟩ := append_eq_append_cons he
    · exact h before mid out o n rfl hl hn
    · exact ht mid after out o n hm hl hn

theorem parsed_iff (h : Parsed names s s') : Fed p s'.events ↔ Fed p s.events := by
  rw [h.events, append_iff, and_iff_left]
  intro before after out o n he
  have hm : .written out ∈ names.map Event.parsed := by simp [he]
  simp [Event.parsed_ne_written] at hm

theorem wrote_iff (h : Wrote names s s') : Fed p s'.events ↔ Fed p s.events ∧
    ∀ out ∈ names, ∀ o, Data.lookup out p.outputs = some o → ∀ n ∈ o.sets,
      .parsed n ∈ s.events := by
  have ⟨tail, he, hf⟩ := h.events
  rw [he, append_iff]
  refine and_congr_right fun _ => ⟨fun h out hm o hl n hn => ?_, fun h => ?_⟩
  · have ⟨before, after, ht⟩ := List.append_of_mem <| (Wrote.written_mem hf).mpr hm
    cases List.mem_append.mp <| h before after out o n ht hl hn
    case inl h => exact h
    case inr h => exact absurd (ht ▸ List.mem_append_left _ h) (Wrote.parsed_not_mem hf)
  · intro before after out o n ht hl hn
    have hm := (Wrote.written_mem hf).mp <| ht ▸ List.mem_append_right before List.mem_cons_self
    exact List.mem_append_left _ <| h out hm o hl n hn

theorem start (scene : Scene σ) : Fed p (EngineState.start scene).events := by
  intro before after out o n he
  simp [EngineState.start] at he

end Fed

theorem Traced.afterPoll (ha : p.Accepted) (hs : p.hasService) (ht : Traced s) :
    Traced (afterPoll w p s) := by
  have ⟨_, _, _, hp, hw, _⟩ := afterPoll_steps (w := w) ha hs s
  have ht : Traced (s.paused w) := ht
  exact (ht.parsed hp).wrote hw

-- The first compile writes no output unless it has parsed every set.
theorem compiled_steps (w : World σ) (scene : Scene σ) (ha : p.Accepted) : ∃ done outs s₁,
    Parsed done (.start scene) s₁ ∧ Wrote outs s₁ (compiled w p scene) ∧
      (outs = [] ∨ done = p.fileSets.map Prod.fst) := by
  rcases h : exec (parseEach w p (p.fileSets.map Prod.fst)) (.start scene) with ⟨e | _, s₁⟩
  all_goals obtain ⟨done, _, _, hd, _, hp, hr⟩ := parseEach_parsed h
  case error =>
    obtain ⟨_, _, he, hw, _⟩ := compileAll_of_error h
    exact ⟨done, [], s₁, hp, by simpa [compiled, he] using hw, .inl rfl⟩
  case ok =>
    obtain ⟨_, _, he, hw⟩ := compileAll_of_ok ha h
    exact ⟨done, _, s₁, hp, by simpa [compiled, he] using hw, .inr <| by simp [hd, hr rfl]⟩

theorem traced_compiled (ha : p.Accepted) : Traced (compiled w p scene) :=
  have ⟨_, _, _, hp, hw, _⟩ := compiled_steps w scene ha
  ((Traced.start scene).parsed hp).wrote hw

theorem fed_compiled (ha : p.Accepted) : Fed p (compiled w p scene).events := by
  have ⟨done, outs, s₁, hp, hw, ho⟩ := compiled_steps w scene ha
  refine (Fed.wrote_iff hw).mpr ⟨(Fed.parsed_iff hp).mpr <| .start scene, ?_⟩
  cases ho
  case inl ho => simp [ho]
  case inr hd =>
    intro out _ o hl n hn
    have hm := ha.isSome_lookup (Data.mem_of_lookup hl) hn
    have ⟨set, hm⟩ := Option.isSome_iff_exists.mp hm
    refine ((Traced.start scene).parsed hp n).mp <| hp.documents.mpr <| .inl ?_
    exact hd ▸ List.mem_map_of_mem (Data.mem_of_lookup hm)

theorem fed_afterPoll_iff (ha : p.Accepted) (hs : p.hasService) (ht : Traced s) :
    Fed p (afterPoll w p s).events ↔ Fed p s.events ∧ Complete w p s := by
  have ⟨done, outs, s₁, hp, hw, hc⟩ := afterPoll_steps (w := w) ha hs s
  rw [Fed.wrote_iff hw, Fed.parsed_iff hp]
  refine and_congr_right fun _ => ?_
  obtain ⟨e, he, rfl⟩ | ⟨changed, he, rfl, rfl⟩ := hc
  · simp [Complete, he]
  · have hm (n) : .parsed n ∈ s₁.events ↔ n ∈ changed ∨ (Data.lookup n s.documents).isSome := by
      have ht : Traced (s.paused w) := ht
      rw [← ht.parsed hp n, hp.documents, (w.order.perm changed).mem_iff]
      rfl
    simp only [Complete, he, hm, Prod.mk.injEq, Except.ok.injEq]
    constructor
    · rintro h _ _ ⟨rfl, rfl⟩ out o hl hn n
      exact h out ((p.mem_affected ha hl).mpr hn) o hl n
    · intro h out hm o hl
      exact h changed s₁ ⟨rfl, rfl⟩ out o hl ((p.mem_affected ha hl).mp hm)

theorem traced_watched (ha : p.Accepted) (hs : p.hasService) (polls : Nat) :
    Traced (watched w p scene polls) := by
  induction polls
  case zero =>
    rw [watched_zero ha hs]
    exact (traced_compiled ha).wrote <| .reported nofun
  case succ n hi =>
    rw [watched_succ ha hs]
    exact hi.afterPoll ha hs

-- Each set has documents.
def Stocked (p : Plan) (s : EngineState σ) : Prop :=
  ∀ n, (Data.lookup n p.fileSets).isSome → (Data.lookup n s.documents).isSome

theorem Stocked.complete (ha : p.Accepted) (h : Stocked p s) : Complete w p s :=
  fun _ _ _ _ _ hl _ n hn => .inr <| h n <| ha.isSome_lookup (Data.mem_of_lookup hl) hn

theorem Stocked.afterPoll (ha : p.Accepted) (hs : p.hasService) (h : Stocked p s) :
    Stocked p (afterPoll w p s) := by
  intro n hn
  have ⟨_, _, _, hp, hw, _⟩ := afterPoll_steps (w := w) ha hs s
  exact hw.documents ▸ hp.documents.mpr (.inr <| h n hn)

theorem stocked_watched (ha : p.Accepted) (hs : p.hasService) (h : Stocked p (compiled w p scene))
    (polls : Nat) : Stocked p (watched w p scene polls) := by
  induction polls
  case zero => rwa [watched_zero ha hs]
  case succ n hi =>
    rw [watched_succ ha hs]
    exact hi.afterPoll ha hs

theorem fed_watched_iff (ha : p.Accepted) (hs : p.hasService) (polls : Nat) :
    Fed p (watched w p scene polls).events ↔
      ∀ k < polls, Complete w p (watched w p scene k) := by
  induction polls
  case zero =>
    have hw := Wrote.reported (s := compiled w p scene)
      (e := .message "Watching for changes...") nofun
    rw [watched_zero ha hs, Fed.wrote_iff hw]
    simp [fed_compiled ha]
  case succ n hi =>
    rw [watched_succ ha hs, fed_afterPoll_iff ha hs (traced_watched ha hs n), hi,
      Nat.forall_lt_succ_right]

-- Outputs are written from parsed sets only, in a watch exactly if no poll parses some sets of an
-- output while others were never parsed. The first compile is enough for that if it parses all.
theorem fed_iff_complete (ha : p.Accepted) :
    Fed p (compiled w p scene).events ∧
    (p.hasService → ∀ polls, (Fed p (watched w p scene polls).events ↔
      ∀ k < polls, Complete w p (watched w p scene k)) ∧
      (Stocked p (compiled w p scene) → Fed p (watched w p scene polls).events)) := by
  refine ⟨fed_compiled ha, fun hs polls => ⟨fed_watched_iff ha hs polls, fun h => ?_⟩⟩
  exact (fed_watched_iff ha hs polls).mpr fun k _ => (stocked_watched ha hs h k).complete ha

open World (scripted answer refusal)

-- The first query is refused, so no set is parsed. Then there is a change in one of the two.
def refusedOnce : Scene (List (Except WatchmanFault Data)) :=
  ⟨⟨[]⟩, [answer [], refusal, answer [], answer ["app.js"], answer [], answer [], answer []]⟩

theorem fed_modules :
    Plan.modules.Accepted ∧ Plan.modules.hasService ∧
    Fed .modules (compiled scripted .modules refusedOnce).events ∧
    (Fed .modules (watched scripted .modules refusedOnce 1).events ↔
      ∀ k < 1, Complete scripted .modules (watched scripted .modules refusedOnce k)) :=
  have h := fed_iff_complete Plan.modules_accepted
  ⟨Plan.modules_accepted, rfl, h.left, (h.right rfl 1).left⟩

-- The output is written after the poll although the second of its sets was never parsed.
theorem refusedOnce_not_fed :
    ¬ Fed .modules (watched scripted .modules refusedOnce 1).events := by
  intro h
  have hc := (fed_watched_iff Plan.modules_accepted rfl 1).mp h 0 (by simp)
  have ⟨s, he⟩ : ∃ s, exec (parseChanged scripted .modules)
    ((watched scripted .modules refusedOnce 0).paused scripted) = (.ok ["js"], s) :=
    exec_of_toOption <| by decide +kernel
  have := hc ["js"] s he "js" _ rfl ⟨"js", by decide⟩ "graphql" (by decide)
  simp [show (watched scripted .modules refusedOnce 0).documents = [] from rfl] at this

end Engine

end GraphqlArtifacts
