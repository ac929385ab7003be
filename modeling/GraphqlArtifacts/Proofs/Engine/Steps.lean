import GraphqlArtifacts.Engine.Watch
import GraphqlArtifacts.Proofs.Data.Lookup
import GraphqlArtifacts.Proofs.Exec

namespace GraphqlArtifacts

namespace Event

-- The report of a set that was parsed without a fault.
def parsed (name : String) : Event :=
  .time s!"Parsing {name}"

-- The report of an output after it was written, also if that failed.
def written (name : String) : Event :=
  .time s!"Writing {name}"

theorem parsed_inj {n m : String} : parsed n = parsed m ↔ n = m := by
  simp [parsed, String.append_right_inj, toString]

theorem written_inj {n m : String} : written n = written m ↔ n = m := by
  simp [written, String.append_right_inj, toString]

theorem parsed_ne_written {n m : String} : parsed n ≠ written m := by
  intro h
  have h : ("Parsing " ++ n).toList = ("Writing " ++ m).toList :=
    congrArg String.toList (Event.time.inj h)
  simp [String.toList_append] at h

-- Whether a report is of a step that took its time.
def isStep : Event → Bool
  | time _ => true
  | _      => false

@[simp]
theorem isStep_parsed (name : String) : (parsed name).isStep :=
  rfl

@[simp]
theorem isStep_written (name : String) : (written name).isStep :=
  rfl

end Event

-- Only faults of configuration end a run.
def EngineFault.IsRecoverable (e : EngineFault) : Prop :=
  ∀ c, e ≠ .configuration c

theorem EngineFault.exists_configuration {e : EngineFault} (h : ¬ e.IsRecoverable) :
    ∃ c, e = .configuration c := by
  simpa [IsRecoverable] using h

namespace EngineState

variable {σ : Type}

-- Nothing is reported and no documents are exchanged.
def Silent (s s' : EngineState σ) : Prop :=
  s'.events = s.events ∧ s'.documents = s.documents

instance : IsPreorder (EngineState σ) Silent where
  refl _ := ⟨rfl, rfl⟩
  trans _ _ _ h₁ h₂ := ⟨h₂.left.trans h₁.left, h₂.right.trans h₁.right⟩

-- The state in which a poll begins.
def paused (w : World σ) (s : EngineState σ) : EngineState σ :=
  { s with scene := w.pause s.scene }

def reported (e : Event) (s : EngineState σ) : EngineState σ :=
  { s with events := s.events ++ [e] }

-- The documents of a set are kept and its parse is reported.
def keep (name : String) (documents : List DocumentFile) (s : EngineState σ) : EngineState σ :=
  { s with
    documents := Data.insert name documents s.documents
    events := s.events ++ [.parsed name] }

-- Sets were parsed one after another. Nothing else is reported while that goes well.
structure Parsed (names : List String) (s s' : EngineState σ) : Prop where
  events : s'.events = s.events ++ names.map .parsed
  documents : ∀ {n}, (Data.lookup n s'.documents).isSome ↔
    n ∈ names ∨ (Data.lookup n s.documents).isSome

namespace Parsed

variable {s s₁ s' : EngineState σ} {names later : List String}

theorem ofSilent (h : Silent s s') : Parsed [] s s' where
  events := by simp [h.left]
  documents := by simp [h.right]

theorem trans (h₁ : Parsed names s s₁) (h₂ : Parsed later s₁ s') :
    Parsed (names ++ later) s s' where
  events := by simp [h₂.events, h₁.events]
  documents := by simp [h₂.documents, h₁.documents, or_assoc, or_left_comm]

theorem keep (name : String) (documents : List DocumentFile) :
    Parsed [name] s (s.keep name documents) where
  events := rfl
  documents := by simp [EngineState.keep, Data.isSome_lookup_insert]

end Parsed

-- Outputs were written one after another. Only the files and the reports are not as before.
structure Wrote (names : List String) (s s' : EngineState σ) : Prop where
  others : s'.scene.others = s.scene.others
  watches : s'.watches = s.watches
  clocks : s'.clocks = s.clocks
  documents : s'.documents = s.documents
  events : ∃ tail, s'.events = s.events ++ tail ∧ tail.filter Event.isStep = names.map .written

namespace Wrote

variable {s s₁ s' : EngineState σ} {names later : List String} {n : String} {tail : List Event}

theorem refl (s : EngineState σ) : Wrote [] s s where
  others := rfl
  watches := rfl
  clocks := rfl
  documents := rfl
  events := ⟨[], by simp⟩

theorem reported {e : Event} (h : ¬ e.isStep) : Wrote [] s (s.reported e) where
  others := rfl
  watches := rfl
  clocks := rfl
  documents := rfl
  events := ⟨[e], rfl, by simp [h]⟩

theorem trans (h₁ : Wrote names s s₁) (h₂ : Wrote later s₁ s') :
    Wrote (names ++ later) s s' where
  others := h₂.others.trans h₁.others
  watches := h₂.watches.trans h₁.watches
  clocks := h₂.clocks.trans h₁.clocks
  documents := h₂.documents.trans h₁.documents
  events := by
    have ⟨t₁, he₁, hf₁⟩ := h₁.events
    have ⟨t₂, he₂, hf₂⟩ := h₂.events
    exact ⟨t₁ ++ t₂, by simp [he₂, he₁], by simp [hf₁, hf₂]⟩

theorem written_mem (hf : tail.filter Event.isStep = names.map .written) :
    .written n ∈ tail ↔ n ∈ names := by
  have h : .written n ∈ tail.filter Event.isStep ↔ .written n ∈ tail := by simp
  simp [← h, hf, Event.written_inj]

theorem parsed_not_mem (hf : tail.filter Event.isStep = names.map .written) :
    .parsed n ∉ tail := by
  intro h
  have h : .parsed n ∈ tail.filter Event.isStep := by simp [h]
  simp [hf, Event.parsed_ne_written.symm] at h

end Wrote

end EngineState

namespace Engine

open EngineState

variable {σ α : Type} {w : World σ} {p : Plan} {s s' : EngineState σ} {name : String}
  {names : List String} {docs : List DocumentFile} {e : EngineFault} {r : Except EngineFault Unit}
  {caption : String}

theorem exec_report (e : Event) : exec (report e) s = (.ok (), s.reported e) :=
  rfl

theorem exec_talk (t : Watchman.Talk (Scene σ) α) : exec (talk t) s =
    ((exec t (s.watches, s.scene)).1.mapError .watchman,
      { s with
        watches := (exec t (s.watches, s.scene)).2.1
        scene := (exec t (s.watches, s.scene)).2.2 }) :=
  rfl

theorem talk_ok {t : Watchman.Talk (Scene σ) α} {a : α} (h : exec (talk t) s = (.ok a, s')) :
    exec t (s.watches, s.scene) = (.ok a, (s'.watches, s'.scene)) ∧
      s' = { s with watches := s'.watches, scene := s'.scene } := by
  rw [exec_talk] at h
  rcases ht : exec t (s.watches, s.scene) with ⟨_ | _, _, _⟩ <;> simp [ht, Except.mapError] at h
  obtain ⟨rfl, rfl⟩ := h
  exact ⟨rfl, rfl⟩

theorem exec_reading (f : Tree → Except EngineFault α) : exec (reading w f) s =
    match f s.scene.tree with
    | .ok a    => (.ok a, { s with scene := w.pass s.scene })
    | .error e => (.error e, s) := by
  simp only [reading, ofStep, exec_bind, exec_get, exec_step]
  cases f s.scene.tree <;> rfl

theorem exec_reading_ok {f : Tree → Except EngineFault α} {a : α} :
    exec (reading w f) s = (.ok a, s') ↔
      f s.scene.tree = .ok a ∧ s' = { s with scene := w.pass s.scene } := by
  rw [exec_reading]
  cases f s.scene.tree <;> simp [eq_comm]

theorem exec_recovering_of_ok {step : Engine σ α} {a : α} (h : exec step s = (.ok a, s')) :
    exec (recovering caption step) s = (.ok (some a), s') := by
  simp [recovering, exec_tryCatch, exec_map, h, Except.map]

theorem exec_recovering_of_error {step : Engine σ α} (h : exec step s = (.error e, s'))
    (hc : e.IsRecoverable) :
    exec (recovering caption step) s = (.ok none, s'.reported (.error caption e)) := by
  simp only [recovering, exec_tryCatch, exec_map, h, Except.map]
  cases e
  case configuration c => exact absurd rfl (hc c)
  all_goals rfl

theorem exec_recovering_of_configuration {step : Engine σ α} {c : ConfigurationError}
    (h : exec step s = (.error (.configuration c), s')) :
    exec (recovering caption step) s = (.error (.configuration c), s') := by
  simp [recovering, exec_tryCatch, exec_map, h, Except.map]

theorem talk_silent (t : Watchman.Talk (Scene σ) α) : Keeps Silent (talk t) :=
  fun _ => ⟨rfl, rfl⟩

theorem reading_silent (f : Tree → Except EngineFault α) : Keeps Silent (reading w f) := by
  intro s
  rw [exec_reading]
  cases f s.scene.tree <;> exact ⟨rfl, rfl⟩

section

variable {R : EngineState σ → EngineState σ → Prop} [IsPreorder (EngineState σ) R]

section

variable (hr : ∀ {α : Type} (f : Tree → Except EngineFault α), Keeps R (reading w f))
include hr

theorem keepMentioning_keeps (set : FileSet) (files : List String) :
    Keeps R (keepMentioning w set files) := by
  induction files
  case nil         => exact .pure _
  case cons file files hi =>
    exact .bind (hr _) fun _ => .bind hi fun _ => .pure _

theorem choose_keeps (set : FileSet) (files : List String) : Keeps R (choose w set files) := by
  unfold choose
  split
  · exact keepMentioning_keeps hr _ _
  · exact .pure _

theorem readAll_keeps (set : FileSet) (files : List String) : Keeps R (readAll w set files) := by
  induction files
  case nil         => exact .pure _
  case cons file files hi =>
    exact .bind (hr _) fun _ => .bind hi fun _ => .pure _

end

-- All that a run does about a set before it keeps documents: it asks the service, notes the time of
-- an answer, and reads files.
structure Allows (w : World σ) (R : EngineState σ → EngineState σ → Prop) (name : String) :
    Prop where
  query : ∀ base e since, Keeps R (talk (Watchman.query w.service base e since))
  clock : ∀ base, Keeps R (talk (Watchman.clock w.service base))
  note : ∀ c, Keeps R
    (modify fun s => { s with clocks := Data.insert name c s.clocks } : Engine σ PUnit)
  reading : ∀ {α : Type} (f : Tree → Except EngineFault α), Keeps R (reading w f)

namespace Allows

theorem listFiles (h : Allows w R name) (set : FileSet) : Keeps R (listFiles w p name set) := by
  unfold Engine.listFiles
  split
  case h_1 => exact .pure _
  case h_2 => exact .pure _
  case h_3 =>
    split
    · exact .bind (.throw _) fun _ => .bind (h.query _ _ _) fun _ =>
        .bind (h.note _) fun _ => .pure _
    · exact .bind (h.query _ _ _) fun _ => .bind (h.note _) fun _ => .pure _

theorem readSet (h : Allows w R name) (set : FileSet) : Keeps R (readSet w p name set) :=
  .bind (h.listFiles _) fun _ => .bind (choose_keeps h.reading _ _) fun _ =>
    readAll_keeps h.reading _ _

theorem changesOf (h : Allows w R name) (set : FileSet) (expression : Data) :
    Keeps R (changesOf w name set expression) := by
  unfold Engine.changesOf
  refine .bind (fun _ => refl_of R _) fun s => ?_
  split
  · exact .bind (.pure _) fun _ => .bind (h.query _ _ _) fun _ =>
      .bind (h.note _) fun _ => .pure _
  · exact .bind (h.clock _) fun _ => .bind (h.query _ _ _) fun _ =>
      .bind (h.note _) fun _ => .pure _

theorem changedSets {sets : List (String × FileSet)} (h : ∀ n ∈ sets.map Prod.fst, Allows w R n) :
    Keeps R (changedSets w p sets) := by
  induction sets
  case nil => exact .pure _
  case cons head sets hi =>
    simp only [List.map_cons, List.forall_mem_cons] at h
    have hi := hi h.right
    unfold Engine.changedSets
    split
    · exact hi
    · exact .bind (h.left.changesOf _ _) fun _ => .bind hi fun _ => .pure _

end Allows

end

theorem allows_silent (name : String) : Allows w Silent name where
  query _ _ _ := talk_silent _
  clock _ := talk_silent _
  note _ _ := ⟨rfl, rfl⟩
  reading := reading_silent

theorem changedSets_silent (sets : List (String × FileSet)) :
    Keeps Silent (changedSets w p sets) :=
  Allows.changedSets fun n _ => allows_silent n

theorem talk_recoverable (t : Watchman.Talk (Scene σ) α) :
    Raises EngineFault.IsRecoverable (talk t) := by
  intro s e s' h c
  rw [exec_talk] at h
  cases ht : (exec t (s.watches, s.scene)).1 <;> simp [ht, Except.mapError] at h
  simp [← h.left]

theorem reading_recoverable {f : Tree → Except EngineFault α}
    (hf : ∀ t e, f t = .error e → e.IsRecoverable) :
    Raises EngineFault.IsRecoverable (reading w f) := by
  intro s e s' h
  rw [exec_reading] at h
  cases ht : f s.scene.tree <;> simp [ht] at h
  exact h.left ▸ hf _ _ ht

theorem listFiles_recoverable (hs : p.hasService) (name : String) (set : FileSet) :
    Raises EngineFault.IsRecoverable (listFiles w p name set) := by
  unfold listFiles
  split
  case h_1 => exact .pure _
  case h_2 => exact .pure _
  case h_3 =>
    simp only [hs, Bool.not_true, Bool.false_eq_true, if_false]
    exact .bind (talk_recoverable _) fun _ => .bind (fun _ _ _ => nofun) fun _ => .pure _

theorem keepMentioning_recoverable (set : FileSet) (files : List String) :
    Raises EngineFault.IsRecoverable (keepMentioning w set files) := by
  induction files
  case nil         => exact .pure _
  case cons file files hi =>
    exact .bind (reading_recoverable nofun) fun _ => .bind hi fun _ => .pure _

theorem choose_recoverable (set : FileSet) (files : List String) :
    Raises EngineFault.IsRecoverable (choose w set files) := by
  unfold choose
  split
  · exact keepMentioning_recoverable _ _
  · exact .pure _

theorem readAll_recoverable (set : FileSet) (files : List String) :
    Raises EngineFault.IsRecoverable (readAll w set files) := by
  induction files
  case nil         => exact .pure _
  case cons file files hi =>
    refine .bind (reading_recoverable fun t e h c => ?_) fun _ => .bind hi fun _ => .pure _
    cases hp : set.reader.parseFile t set.base file <;> simp [hp, Except.mapError] at h
    simp [← h]

theorem readSet_recoverable (hs : p.hasService) (name : String) (set : FileSet) :
    Raises EngineFault.IsRecoverable (readSet w p name set) :=
  .bind (listFiles_recoverable hs _ _) fun _ => .bind (choose_recoverable _ _) fun _ =>
    readAll_recoverable _ _

theorem changesOf_recoverable (name : String) (set : FileSet) (expression : Data) :
    Raises EngineFault.IsRecoverable (changesOf w name set expression) := by
  unfold changesOf
  refine .bind (fun _ _ _ => nofun) fun s => ?_
  cases Data.lookup name s.clocks
  case none =>
    exact .bind (talk_recoverable _) fun _ => .bind (talk_recoverable _) fun _ =>
      .bind (fun _ _ _ => nofun) fun _ => .pure _
  case some clock =>
    exact .bind (.pure _) fun _ => .bind (talk_recoverable _) fun _ =>
      .bind (fun _ _ _ => nofun) fun _ => .pure _

theorem changedSets_recoverable (sets : List (String × FileSet)) :
    Raises EngineFault.IsRecoverable (changedSets w p sets) := by
  induction sets
  case nil => exact .pure _
  case cons head sets hi =>
    unfold changedSets
    split
    · exact hi
    · exact .bind (changesOf_recoverable _ _ _) fun _ => .bind hi fun _ => .pure _

theorem exec_parse {set : FileSet} (hl : Data.lookup name p.fileSets = some set) :
    exec (parse w p name) s =
      match exec (readSet w p name set) s with
      | (.ok documents, s₁) => (.ok documents, s₁.keep name documents)
      | (.error e, s₁)      => (.error e, s₁) := by
  simp only [parse, hl, exec_bind]
  rcases exec (readSet w p name set) s with ⟨_ | _, _⟩ <;> rfl

theorem parse_ok (h : exec (parse w p name) s = (.ok docs, s')) :
    ∃ set s₁, Data.lookup name p.fileSets = some set ∧
      exec (readSet w p name set) s = (.ok docs, s₁) ∧ s' = s₁.keep name docs := by
  cases hl : Data.lookup name p.fileSets
  case none => simp [parse, hl] at h
  case some set =>
    rw [exec_parse hl] at h
    rcases hr : exec (readSet w p name set) s with ⟨_ | docs', s₁⟩ <;> simp [hr] at h
    obtain ⟨rfl, rfl⟩ := h
    exact ⟨set, s₁, rfl, hr, rfl⟩

theorem parse_parsed (h : exec (parse w p name) s = (.ok docs, s')) : Parsed [name] s s' := by
  have ⟨set, s₁, _, hr, he⟩ := parse_ok h
  exact he ▸ Parsed.trans (.ofSilent <| ((allows_silent name).readSet set).exec hr) (.keep name docs)

theorem parse_silent_of_error (h : exec (parse w p name) s = (.error e, s')) : Silent s s' := by
  cases hl : Data.lookup name p.fileSets
  case none =>
    simp [parse, hl] at h
    exact h.right ▸ refl_of Silent s
  case some set =>
    rw [exec_parse hl] at h
    rcases hr : exec (readSet w p name set) s with ⟨_ | _, s₁⟩ <;> simp [hr] at h
    obtain ⟨rfl, rfl⟩ := h
    exact ((allows_silent name).readSet set).exec hr

theorem parseEach_cons : exec (parseEach w p (name :: names)) s =
    match exec (parse w p name) s with
    | (.ok _, s₁)    => exec (parseEach w p names) s₁
    | (.error e, s₁) => (.error e, s₁) := by
  rw [parseEach, exec_forM_cons, exec_bind, exec_discard]
  rcases exec (parse w p name) s with ⟨_ | _, _⟩ <;> rfl

-- When sets are parsed one after another, those up to the first fault are parsed.
theorem parseEach_parsed (h : exec (parseEach w p names) s = (r, s')) :
    ∃ done rest s₁, names = done ++ rest ∧ exec (parseEach w p done) s = (.ok (), s₁) ∧
      Parsed done s s' ∧ (r = .ok () → rest = []) := by
  induction names generalizing s
  case nil =>
    cases h
    exact ⟨[], [], _, rfl, rfl, .ofSilent <| refl_of Silent _, fun _ => rfl⟩
  case cons name names hi =>
    rw [parseEach_cons] at h
    rcases hp : exec (parse w p name) s with ⟨e | docs, s₂⟩ <;> simp only [hp] at h
    case error =>
      cases h
      exact ⟨[], name :: names, _, rfl, rfl, .ofSilent <| parse_silent_of_error hp, nofun⟩
    case ok =>
      have ⟨done, rest, s₁, hd, he, hw, hr⟩ := hi h
      refine ⟨name :: done, rest, s₁, by simp [hd], ?_, (parse_parsed hp).trans hw, hr⟩
      simp [parseEach_cons, hp, he]

theorem parseChanged_parsed {r : Except EngineFault (List String)}
    (h : exec (parseChanged w p) s = (r, s')) :
    ∃ done, Parsed done s s' ∧ ∀ changed, r = .ok changed → done = w.order.apply changed := by
  rcases hc : exec (changedSets w p p.fileSets) s with ⟨_ | changed, s₁⟩
  all_goals have hq := Parsed.ofSilent <| (changedSets_silent _).exec hc
  case error =>
    cases (exec_bind_of_error hc).symm.trans h
    exact ⟨[], hq, nofun⟩
  case ok =>
    rw [parseChanged, exec_bind_of_ok hc] at h
    rcases he : exec (parseEach w p (w.order.apply changed)) s₁ with ⟨_ | _, s₂⟩
    all_goals
      have ⟨done, rest, _, hd, _, hw, hr⟩ := parseEach_parsed he
    case error =>
      cases (exec_bind_of_error he).symm.trans h
      exact ⟨done, hq.trans hw, nofun⟩
    case ok =>
      cases (exec_bind_of_ok he).symm.trans h
      refine ⟨done, hq.trans hw, fun _ h => ?_⟩
      cases h
      simp [hd, hr rfl]

theorem parse_recoverable (hs : p.hasService) :
    Raises EngineFault.IsRecoverable (parse w p name) := by
  unfold parse
  split
  · intro s e s' h
    simp at h
    simp [← h.left, EngineFault.IsRecoverable]
  · exact .bind (readSet_recoverable hs _ _) fun _ =>
      .bind (fun _ _ _ => nofun) fun _ => .bind (fun _ _ _ => nofun) fun _ => .pure _

theorem parseEach_recoverable (hs : p.hasService) (names : List String) :
    Raises EngineFault.IsRecoverable (parseEach w p names) :=
  .forM fun _ _ => .discard <| parse_recoverable hs

theorem parseChanged_recoverable (hs : p.hasService) :
    Raises EngineFault.IsRecoverable (parseChanged w p) :=
  .bind (changedSets_recoverable _) fun _ => .bind (parseEach_recoverable hs _) fun _ => .pure _

end Engine

end GraphqlArtifacts
