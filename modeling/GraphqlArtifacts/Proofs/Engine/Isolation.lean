import GraphqlArtifacts.Proofs.Engine.Crew
import GraphqlArtifacts.Proofs.Engine.Inputs

namespace GraphqlArtifacts

open EngineState

namespace Outcome

variable {outcomes : List Outcome}

theorem combine_error_iff : combine outcomes = error ↔ error ∈ outcomes := by
  unfold combine
  split
  case isTrue h  => simp [h]
  case isFalse h => split <;> simp [h]

theorem combine_hasChanges_iff :
    combine outcomes = hasChanges ↔ error ∉ outcomes ∧ hasChanges ∈ outcomes := by
  unfold combine
  split
  case isTrue h  => simp [h]
  case isFalse h => split <;> simp_all

theorem combine_noChanges_iff :
    combine outcomes = noChanges ↔ ∀ outcome ∈ outcomes, outcome = noChanges := by
  unfold combine
  split
  case isTrue h =>
    simp only [reduceCtorEq, false_iff, not_forall]
    exact ⟨error, h, nofun⟩
  case isFalse he =>
    split
    case isTrue h =>
      simp only [reduceCtorEq, false_iff, not_forall]
      exact ⟨hasChanges, h, nofun⟩
    case isFalse hc =>
      simp only [true_iff]
      intro outcome hm
      cases outcome
      case error      => exact absurd hm he
      case hasChanges => exact absurd hm hc
      case noChanges  => rfl

end Outcome

namespace Plan

variable {p : Plan} {docs : List (String × List DocumentFile)}

-- The documents of a set among those of several.
def documentsIn (docs : List (String × List DocumentFile)) (name : String) : List DocumentFile :=
  (Data.lookup name docs).getD []

-- What the writer of an output is given: the documents of its set, and those of its base sets one
-- after another.
def task? (p : Plan) (docs : List (String × List DocumentFile)) :
    String × Output → Option WriterTask
  | (name, o) => (Data.lookup o.fileSet p.fileSets).map fun set =>
    ⟨name, o, set, documentsIn docs o.fileSet, o.baseSets.flatMap (documentsIn docs)⟩

-- What all writers are given. It depends on the documents, but not on what writers do.
def tasks (p : Plan) (docs : List (String × List DocumentFile)) : List WriterTask :=
  p.outputs.filterMap (p.task? docs)

theorem Accepted.task? (ha : p.Accepted) {name : String} {o : Output} (hm : (name, o) ∈ p.outputs) :
    ∃ set, Data.lookup o.fileSet p.fileSets = some set ∧ p.task? docs (name, o) =
      some ⟨name, o, set, documentsIn docs o.fileSet, o.baseSets.flatMap (documentsIn docs)⟩ := by
  have ⟨set, hs⟩ := Option.isSome_iff_exists.mp <| ha.isSome_lookup hm List.mem_cons_self
  exact ⟨set, hs, by simp [Plan.task?, hs]⟩

-- Each output has a task.
theorem Accepted.tasks_names (ha : p.Accepted) :
    (p.tasks docs).map WriterTask.name = p.outputs.map Prod.fst := by
  suffices h : ∀ outs ⊆ p.outputs, (outs.filterMap (p.task? docs)).map WriterTask.name =
      outs.map Prod.fst from h _ <| List.Subset.refl _
  intro outs hm
  induction outs
  case nil => rfl
  case cons head outs hi =>
    have ⟨set, _, ht⟩ := @task? p docs ha _ _ (hm List.mem_cons_self)
    simp [ht, hi <| List.subset_of_cons_subset hm]

-- The task of an output has another name than all others.
theorem Accepted.tasks_ne (ha : p.Accepted) {before later : List WriterTask} {task : WriterTask}
    (h : p.tasks docs = before ++ task :: later) :
    (∀ other ∈ before, other.name ≠ task.name) ∧ ∀ other ∈ later, other.name ≠ task.name := by
  have hn : ((p.tasks docs).map WriterTask.name).Nodup := ha.tasks_names ▸ ha.outputs
  rw [h, List.map_append, List.map_cons, List.nodup_middle, List.nodup_cons, List.mem_append,
    not_or] at hn
  have ⟨⟨hb, hl⟩, _⟩ := hn
  exact ⟨fun other hm he => hb <| he ▸ List.mem_map_of_mem hm,
    fun other hm he => hl <| he ▸ List.mem_map_of_mem hm⟩

end Plan

namespace Crew

variable {σ : Type} {c c' : Crew σ} {p : Plan} {s s₁ s' : EngineState σ} {name : String}
  {names : List String} {docs : List (String × List DocumentFile)} {e : EngineFault}
  {o : Output} {tasks later : List WriterTask} {task : WriterTask} {scene scene' : Scene σ}
  {documents : List DocumentFile}

-- Parses sets one after another and returns the documents of each.
def parseAll (c : Crew σ) (p : Plan) (names : List String) :
    Engine σ (List (String × List DocumentFile)) :=
  names.mapM fun name => (name, ·) <$> c.parse p name

-- Goes through tasks one after another: each starts with what the one before it has left.
def writeAll (c : Crew σ) : List WriterTask → Scene σ → List (WriterTask × Written) × Scene σ
  | [], scene => ([], scene)
  | task :: rest, scene =>
    let (done, scene) := c.write task scene
    let (later, scene) := c.writeAll rest scene
    ((task, done) :: later, scene)

theorem writeAll_cons : c.writeAll (task :: tasks) scene =
    ((task, (c.write task scene).1) :: (c.writeAll tasks (c.write task scene).2).1,
      (c.writeAll tasks (c.write task scene).2).2) :=
  rfl

-- The state after tasks.
def after (c : Crew σ) (tasks : List WriterTask) (s : EngineState σ) : EngineState σ :=
  { s with
    scene := (c.writeAll tasks s.scene).2
    events := s.events ++ (c.writeAll tasks s.scene).1.flatMap fun (task, done) =>
      done.events task.name }

theorem after_cons : c.after (task :: tasks) s = c.after tasks (c.after [task] s) := by
  simp [after, writeAll]

theorem parse_ok (h : exec (c.parse p name) s = (.ok documents, s₁)) :
    s₁.documents = Data.insert name documents s.documents ∧
      s₁.events = s.events ++ [.parsed name] := by
  unfold parse at h
  split at h
  case h_1 => simp at h
  case h_2 set _ =>
    have ⟨documents', s₂, hr, h⟩ := exec_bind_ok.mp h
    cases h
    have hs := (c.silent name set).exec hr
    exact ⟨congrArg _ hs.right, congrArg (· ++ _) hs.left⟩

theorem parse_error (h : exec (c.parse p name) s = (.error e, s₁)) : Silent s s₁ := by
  unfold parse at h
  split at h
  case h_1 =>
    cases h
    exact refl_of Silent s
  case h_2 set _ =>
    cases exec_bind_error.mp h
    case inl h => exact (c.silent name set).exec h
    case inr h =>
      have ⟨_, _, _, h⟩ := h
      cases h

theorem parseAll_cons : exec (c.parseAll p (name :: names)) s =
    match exec (c.parse p name) s with
    | (.ok documents, s₁) =>
      ((exec (c.parseAll p names) s₁).1.map ((name, documents) :: ·),
        (exec (c.parseAll p names) s₁).2)
    | (.error e, s₁) => (.error e, s₁) := by
  rw [parseAll, List.mapM_cons, exec_bind, exec_map]
  rcases exec (c.parse p name) s with ⟨_ | documents, s₁⟩
  case error => rfl
  case ok =>
    simp only [Except.map, exec_bind]
    rcases h : exec (c.parseAll p names) s₁ with ⟨_ | _, _⟩ <;> simp only [parseAll] at h <;>
      simp [h]

theorem exec_parseEach : exec (c.parseEach p names) s =
    ((exec (c.parseAll p names) s).1.map fun _ => (), (exec (c.parseAll p names) s).2) := by
  induction names generalizing s
  case nil => rfl
  case cons name names hi =>
    rw [parseAll_cons, parseEach, exec_forM_cons, exec_bind, exec_discard]
    rcases exec (c.parse p name) s with ⟨_ | _, s₁⟩
    case error => rfl
    case ok =>
      refine (hi (s := s₁)).trans ?_
      dsimp only
      rcases exec (c.parseAll p names) s₁ with ⟨_ | _, _⟩ <;> rfl

-- The sets up to the first fault are reported as parsed, and nothing else is.
theorem parseAll_events {r : Except EngineFault (List (String × List DocumentFile))}
    (h : exec (c.parseAll p names) s = (r, s₁)) :
    ∃ done, done <+: names ∧ s₁.events = s.events ++ done.map .parsed := by
  induction names generalizing s r
  case nil =>
    cases h
    exact ⟨[], List.prefix_rfl, by simp⟩
  case cons name names hi =>
    rw [parseAll_cons] at h
    rcases hp : exec (c.parse p name) s with ⟨_ | _, s₂⟩ <;> simp only [hp] at h
    case error =>
      cases h
      exact ⟨[], List.nil_prefix, by simp [(parse_error hp).left]⟩
    case ok =>
      have ⟨done, hd, he⟩ := hi <| Prod.ext rfl (Prod.mk.inj h).right
      refine ⟨name :: done, by simpa using hd, ?_⟩
      simp [he, (parse_ok hp).right]

theorem parseAll_documents (h : exec (c.parseAll p names) s = (.ok docs, s₁)) (hn : names.Nodup) :
    docs.map Prod.fst = names ∧
      ∀ n, Data.lookup n s₁.documents = (Data.lookup n docs).or (Data.lookup n s.documents) := by
  induction names generalizing s docs
  case nil =>
    cases h
    exact ⟨rfl, by simp⟩
  case cons name names hi =>
    rw [parseAll_cons] at h
    rcases hp : exec (c.parse p name) s with ⟨_ | documents, s₂⟩ <;> simp only [hp] at h
    case error => cases h
    case ok =>
      rcases hl : exec (c.parseAll p names) s₂ with ⟨_ | later, s₃⟩ <;> simp [hl, Except.map] at h
      have ⟨hd, hs⟩ := h
      subst hd hs
      have ⟨hn, hnl⟩ := List.nodup_cons.mp hn
      have ⟨hf, hd⟩ := hi hl hnl
      refine ⟨by simp [hf], fun n => ?_⟩
      rw [hd, (parse_ok hp).left, Data.lookup_cons]
      by_cases he : name = n
      case pos =>
        have hm : Data.lookup n later = none := by
          refine Option.eq_none_iff_forall_ne_some.mpr fun _ hl => hn ?_
          exact he ▸ hf ▸ List.mem_map_of_mem (Data.mem_of_lookup hl)
        simp [he, hm]
      case neg => simp [he, Data.lookup_insert_of_ne (Ne.symm he)]

-- Writing an output does its task.
theorem exec_compile (ha : p.Accepted) (hm : (name, o) ∈ p.outputs)
    (hd : ∀ n ∈ o.sets, s.documentsOf n = Plan.documentsIn docs n) :
    ∃ task, p.task? docs (name, o) = some task ∧ exec (c.compile p name) s =
      (.ok (c.write task s.scene).1.verdict, c.after [task] s) := by
  have ⟨set, hs, ht⟩ := @Plan.Accepted.task? p docs ha _ _ hm
  refine ⟨_, ht, ?_⟩
  have hown : s.documentsOf o.fileSet = Plan.documentsIn docs o.fileSet := hd _ List.mem_cons_self
  have hbase : o.baseSets.flatMap s.documentsOf = o.baseSets.flatMap (Plan.documentsIn docs) :=
    List.flatMap_congr fun n hn => hd n <| List.mem_cons_of_mem _ hn
  simp only [compile, Data.lookup_of_mem ha.outputs hm, hs, writeOutput, exec_bind, exec_get, hown,
    hbase]
  simp [after, writeAll]

theorem exec_compileEach (ha : p.Accepted)
    (hd : ∀ n, (Data.lookup n p.fileSets).isSome → s.documentsOf n = Plan.documentsIn docs n) :
    exec (c.compileEach p) s =
      (.ok (.combine <| (c.writeAll (p.tasks docs) s.scene).1.map (·.2.verdict)),
        c.after (p.tasks docs) s) := by
  suffices h : ∀ outs ⊆ p.outputs, ∀ s : EngineState σ,
      (∀ n, (Data.lookup n p.fileSets).isSome → s.documentsOf n = Plan.documentsIn docs n) →
      exec (outs.mapM fun (name, _) => c.compile p name) s =
        (.ok <| (c.writeAll (outs.filterMap (p.task? docs)) s.scene).1.map (·.2.verdict),
          c.after (outs.filterMap (p.task? docs)) s) from
    exec_bind_of_ok <| h _ (List.Subset.refl _) s hd
  intro outs hm
  induction outs
  case nil => simp [after, writeAll]
  case cons head outs hi =>
    intro s hd
    have hm₁ := hm List.mem_cons_self
    have ⟨task, ht, he⟩ := exec_compile (c := c) ha hm₁ fun n hn => hd n <| ha.isSome_lookup hm₁ hn
    have hl := hi (List.subset_of_cons_subset hm) (c.after [task] s) hd
    rw [List.mapM_cons, exec_bind_of_ok he, exec_bind_of_ok hl, List.filterMap_cons_some ht,
      after_cons]
    simp [after, writeAll]

theorem writeAll_tasks : (c.writeAll tasks scene).1.map Prod.fst = tasks := by
  induction tasks generalizing scene
  case nil          => rfl
  case cons _ _ hi => simp [writeAll, hi]

theorem writeAll_append : c.writeAll (tasks ++ later) scene =
    ((c.writeAll tasks scene).1 ++ (c.writeAll later (c.writeAll tasks scene).2).1,
      (c.writeAll later (c.writeAll tasks scene).2).2) := by
  induction tasks generalizing scene
  case nil          => rfl
  case cons _ _ hi => simp [writeAll_cons, hi]

theorem writeAll_congr (h : ∀ task ∈ tasks, c'.write task = c.write task) :
    c'.writeAll tasks scene = c.writeAll tasks scene := by
  induction tasks generalizing scene
  case nil => rfl
  case cons task tasks hi =>
    have ⟨ht, h⟩ := List.forall_mem_cons.mp h
    simp only [writeAll_cons, ht, hi h]

-- A way in which scenes are alike for a task, whatever the tasks before it do to them.
structure Respects (c : Crew σ) (Alike : Scene σ → Scene σ → Prop) (before : List WriterTask)
    (task : WriterTask) : Prop where
  kept : ∀ other ∈ before, ∀ {scene scene'}, Alike scene scene' →
    Alike (c.write other scene).2 (c.write other scene').2
  same : ∀ {scene scene'}, Alike scene scene' → (c.write task scene).1 = (c.write task scene').1

theorem Respects.writeAll {Alike : Scene σ → Scene σ → Prop} (h : c.Respects Alike tasks task)
    (ha : Alike scene scene') :
    (c.writeAll (tasks ++ task :: later) scene).1[tasks.length]? =
      (c.writeAll (tasks ++ task :: later) scene').1[tasks.length]? := by
  induction tasks generalizing scene scene'
  case nil => simp [writeAll_cons, h.same ha]
  case cons other tasks hi =>
    have ⟨hk, hks⟩ := List.forall_mem_cons.mp h.kept
    simpa [writeAll_cons] using hi ⟨hks, h.same⟩ (hk ha)

theorem verdict_error_iff {done : Written} :
    done.verdict = .error ↔ ∃ e, done.result = .error e := by
  unfold Written.verdict
  split
  case h_1 hasChanges hr => cases hasChanges <;> simp [hr]
  case h_2 e hr          => simp [hr]

theorem verdict_hasChanges_iff {done : Written} :
    done.verdict = .hasChanges ↔ done.result = .ok true := by
  unfold Written.verdict
  split
  case h_1 hasChanges hr => cases hasChanges <;> simp [hr]
  case h_2 e hr          => simp [hr]

theorem verdict_noChanges_iff {done : Written} :
    done.verdict = .noChanges ↔ done.result = .ok false := by
  unfold Written.verdict
  split
  case h_1 hasChanges hr => cases hasChanges <;> simp [hr]
  case h_2 e hr          => simp [hr]

-- From a state after its sets are parsed, a run that compiles once ends with some tasks done in
-- turn, and its outcome sums up what came of them.
def Ends (c : Crew σ) (p : Plan) (s s₁ : EngineState σ) (runs : List (WriterTask × Written)) :
    Prop :=
  ∃ outcome scene, c.writeAll (runs.map Prod.fst) s₁.scene = (runs, scene) ∧
    exec (c.compileAll p) s = (.ok outcome, { s₁ with
      scene
      events := s₁.events ++ runs.flatMap fun (task, done) => done.events task.name }) ∧
    (outcome = .error ↔ ∃ run ∈ runs, ∃ e, run.2.result = .error e) ∧
    (outcome = .hasChanges ↔
      (∀ run ∈ runs, ∀ e, run.2.result ≠ .error e) ∧ ∃ run ∈ runs, run.2.result = .ok true) ∧
    (outcome = .noChanges ↔ ∀ run ∈ runs, run.2.result = .ok false)

-- How a run that compiles once goes, whatever its readers and writers do.
structure Isolates (c : Crew σ) (p : Plan) (s : EngineState σ) : Prop where
  -- It fails only with faults of configuration.
  raises : ∀ {e s'}, exec (c.compileAll p) s = (.error e, s') → ∃ fault, e = .configuration fault
  -- If a set cannot be parsed it reports that, and no writer makes a difference.
  unparsed : ∀ {e s₁}, exec (c.parseAll p (p.fileSets.map Prod.fst)) s = (.error e, s₁) →
    e.IsRecoverable →
      (∃ done, done <+: p.fileSets.map Prod.fst ∧ s₁.events = s.events ++ done.map .parsed) ∧
      ∀ write, exec (compileAll { c with write } p) s =
        (.ok .error, s₁.reported (.error "Error parsing documents" e))
  -- Else each output has its turn, with the documents of its own sets.
  parsed : ∀ {docs s₁}, exec (c.parseAll p (p.fileSets.map Prod.fst)) s = (.ok docs, s₁) →
    docs.map Prod.fst = p.fileSets.map Prod.fst ∧
    (p.tasks docs).map WriterTask.name = p.outputs.map Prod.fst ∧
    ∃ runs, runs.map Prod.fst = p.tasks docs ∧ c.Ends p s s₁ runs
  -- Whatever one writer does instead, also failing at any point, the others are given the same, and
  -- what comes of those before it is the same. It is for one after it as well if what is left
  -- behind is alike for it.
  isolated : ∀ {docs s₁ before task later} {write : WriterTask → Scene σ → Written × Scene σ},
    exec (c.parseAll p (p.fileSets.map Prod.fst)) s = (.ok docs, s₁) →
    p.tasks docs = before ++ task :: later →
    (∀ other, other.name ≠ task.name → write other = c.write other) →
    let scene := (c.writeAll before s₁.scene).2
    ∃ first rest rest', first.map Prod.fst = before ∧ rest.map Prod.fst = later ∧
      rest'.map Prod.fst = later ∧
      c.Ends p s s₁ (first ++ (task, (c.write task scene).1) :: rest) ∧
      Ends { c with write } p s s₁ (first ++ (task, (write task scene).1) :: rest') ∧
      ∀ {Alike between other after}, later = between ++ other :: after →
        c.Respects Alike between other → Alike (c.write task scene).2 (write task scene).2 →
          rest'[between.length]? = rest[between.length]?

theorem compileAll_of_unparsed
    (h : exec (c.parseAll p (p.fileSets.map Prod.fst)) s = (.error e, s₁)) :
    exec (c.compileAll p) s = match e with
      | .configuration fault => (.error (.configuration fault), s₁)
      | e => (.ok .error, s₁.reported (.error "Error parsing documents" e)) := by
  have h : exec (c.parseEach p (p.fileSets.map Prod.fst)) s = (.error e, s₁) := by
    rw [exec_parseEach, h]
    rfl
  cases e
  case configuration fault =>
    exact exec_bind_of_error <| Engine.exec_recovering_of_configuration h
  all_goals exact exec_bind_of_ok <| Engine.exec_recovering_of_error h nofun

theorem compileAll_of_parsed (ha : p.Accepted)
    (h : exec (c.parseAll p (p.fileSets.map Prod.fst)) s = (.ok docs, s₁)) :
    exec (c.compileAll p) s =
      (.ok (.combine <| (c.writeAll (p.tasks docs) s₁.scene).1.map (·.2.verdict)),
        c.after (p.tasks docs) s₁) := by
  have ⟨hf, hd⟩ := parseAll_documents h ha.fileSets
  have he : exec (c.parseEach p (p.fileSets.map Prod.fst)) s = (.ok (), s₁) := by
    rw [exec_parseEach, h]
    rfl
  refine (exec_bind_of_ok <| Engine.exec_recovering_of_ok he).trans <| exec_compileEach ha ?_
  intro n hn
  have hn : (Data.lookup n docs).isSome := by
    rwa [Data.isSome_lookup_iff, hf, ← Data.isSome_lookup_iff]
  have ⟨documents, hl⟩ := Option.isSome_iff_exists.mp hn
  simp [documentsOf, Plan.documentsIn, hd, hl]

theorem ends_of_parsed (ha : p.Accepted)
    (h : exec (c.parseAll p (p.fileSets.map Prod.fst)) s = (.ok docs, s₁)) :
    c.Ends p s s₁ (c.writeAll (p.tasks docs) s₁.scene).1 := by
  refine ⟨_, _, ?_, compileAll_of_parsed ha h, ?_, ?_, ?_⟩
  · rw [writeAll_tasks]
  · simp only [Outcome.combine_error_iff, List.mem_map, verdict_error_iff]
  · simp only [Outcome.combine_hasChanges_iff, List.mem_map, verdict_error_iff,
      verdict_hasChanges_iff]
    simp
  · simp only [Outcome.combine_noChanges_iff, List.forall_mem_map, verdict_noChanges_iff]

-- The same with one of its tasks singled out.
theorem ends_at (ha : p.Accepted)
    (h : exec (c.parseAll p (p.fileSets.map Prod.fst)) s = (.ok docs, s₁))
    (ht : p.tasks docs = tasks ++ task :: later) :
    c.Ends p s s₁ ((c.writeAll tasks s₁.scene).1 ++
      (task, (c.write task (c.writeAll tasks s₁.scene).2).1) ::
        (c.writeAll later (c.write task (c.writeAll tasks s₁.scene).2).2).1) := by
  have he := ends_of_parsed ha h
  rwa [ht, writeAll_append, writeAll_cons] at he

-- A run that compiles once is all-or-nothing about its sets, and keeps its writers apart. Those of
-- the engine leave all alike if they only look for changes.
theorem compileAll_isolates (ha : p.Accepted) :
    (∀ w : World σ, (ofWorld w p).compileAll p = Engine.compileAll w p) ∧
      (p.onlyValidate → ∀ (w : World σ) task scene, ((ofWorld w p).write task scene).2 = scene) ∧
      ∀ (c : Crew σ) (s : EngineState σ), Isolates c p s := by
  refine ⟨fun w => compileAll_ofWorld, fun hv w task scene => ofWorld_looking hv, fun c s => ?_⟩
  constructor
  case raises =>
    intro e s' h
    rcases hp : exec (c.parseAll p (p.fileSets.map Prod.fst)) s with ⟨e' | docs, s₁⟩
    case error =>
      rw [compileAll_of_unparsed hp] at h
      split at h <;> cases h
      exact ⟨_, rfl⟩
    case ok =>
      rw [compileAll_of_parsed ha hp] at h
      cases h
  case unparsed =>
    intro e s₁ h hr
    refine ⟨parseAll_events h, fun write => ?_⟩
    have h : exec (parseAll { c with write } p (p.fileSets.map Prod.fst)) s = (.error e, s₁) := h
    rw [compileAll_of_unparsed h]
    split
    · exact absurd rfl (hr _)
    · rfl
  case parsed =>
    intro docs s₁ h
    exact ⟨(parseAll_documents h ha.fileSets).left, ha.tasks_names, _, writeAll_tasks,
      ends_of_parsed ha h⟩
  case isolated =>
    intro docs s₁ before task later write h ht hw
    let other : Crew σ := { c with write }
    have ⟨hbefore, hlater⟩ := ha.tasks_ne ht
    have hfirst : other.writeAll before s₁.scene = c.writeAll before s₁.scene :=
      writeAll_congr fun task hm => hw _ (hbefore task hm)
    have hrest (scene : Scene σ) : other.writeAll later scene = c.writeAll later scene :=
      writeAll_congr fun task hm => hw _ (hlater task hm)
    have hends := ends_at (c := c) ha h ht
    have hends' := ends_at (c := other) ha h ht
    rw [hfirst, hrest] at hends'
    refine ⟨_, _, _, writeAll_tasks, writeAll_tasks, writeAll_tasks, hends, hends', ?_⟩
    intro Alike between other after hl hr halike
    rw [hl]
    exact (hr.writeAll halike).symm

-- A service that finds no files for any query.
def emptyScene : Scene (List (Except WatchmanFault Data)) :=
  ⟨.empty, List.replicate 4 (World.answer [])⟩

theorem emptyScene_parsed : (exec (parseAll (ofWorld World.scripted Plan.modules) Plan.modules
    ["js", "graphql"]) (.start emptyScene)).1.toOption.isSome := by
  decide +kernel

theorem isolates_modules : ∃ docs outcome s',
    exec (Engine.compileAll World.scripted Plan.modules) (.start emptyScene) = (.ok outcome, s') ∧
      docs.map Prod.fst = ["js", "graphql"] ∧
      (Plan.modules.tasks docs).map WriterTask.name = ["js"] := by
  have ⟨he, _, hi⟩ :=
    @compileAll_isolates (List (Except WatchmanFault Data)) _ Plan.modules_accepted
  have ⟨docs, hs⟩ := Option.isSome_iff_exists.mp emptyScene_parsed
  have ⟨_, hp⟩ := exec_of_toOption hs
  have ⟨hd, ht, _, _, outcome, _, _, hr, _⟩ := (hi _ _).parsed hp
  exact ⟨docs, outcome, _, he _ ▸ hr, hd, ht⟩

-- A language whose modules say nothing but their name.
def namePlugin : Plugin :=
  { Plugin.javascript with formatModule := fun m => .ok m.moduleName }

-- Two outputs that write the same artifact.
def sharing : Plan where
  fileSets := [("graphql",
    ⟨⟨"/", []⟩, .documents, ArtifactWriter.idSchema, false, some ["a.graphql"], none⟩)]
  outputs := ["first", "second"].map fun name =>
    (name, ⟨⟨namePlugin, ⟨[], false⟩, none⟩, fun _ => false, "graphql", []⟩)
  onlyValidate := false
  hasService := false

theorem sharing_accepted : sharing.Accepted where
  check := by decide
  fileSets := by decide
  outputs := by decide

def sharingScene : Scene (List (Except WatchmanFault Data)) :=
  ⟨⟨[(["a.graphql"], .file (Utf8.encode "query Q \x7b\n  id\n\x7d\n"))]⟩, []⟩

-- The writers of a crew, but that the first one fails before it writes anything.
def failingFirst (c : Crew σ) (task : WriterTask) (scene : Scene σ) : Written × Scene σ :=
  if task.name = "first" then (⟨[], .error (.write (.plugin (.failed "boom")))⟩, scene)
  else c.write task scene

-- What comes of each task once all sets are parsed.
def verdicts (c : Crew σ) (p : Plan) (s : EngineState σ) : List (String × Outcome) :=
  match exec (c.parseAll p (p.fileSets.map Prod.fst)) s with
  | (.ok docs, s₁) =>
    (c.writeAll (p.tasks docs) s₁.scene).1.map fun (task, done) => (task.name, done.verdict)
  | (.error _, _)  => []

theorem verdicts_of_parsed
    (h : exec (c.parseAll p (p.fileSets.map Prod.fst)) s = (.ok docs, s₁)) : c.verdicts p s =
      (c.writeAll (p.tasks docs) s₁.scene).1.map fun (task, done) => (task.name, done.verdict) := by
  simp [verdicts, h]

theorem sharing_verdicts : let c := ofWorld World.scripted sharing
    c.verdicts sharing (.start sharingScene) = [("first", .hasChanges), ("second", .noChanges)] ∧
    verdicts { c with write := c.failingFirst } sharing (.start sharingScene) =
      [("first", .error), ("second", .hasChanges)] := by
  decide +kernel

-- If the first writer fails, the second one writes what it else finds written already.
theorem sharing_not_isolated : let c := ofWorld World.scripted sharing
    sharing.Accepted ∧ (∀ task, task.name ≠ "first" → c.failingFirst task = c.write task) ∧
    (∀ task scene, task.name = "first" → ∃ e, (c.failingFirst task scene).1.result = .error e) ∧
    ∃ s₁ runs runs', c.Ends sharing (.start sharingScene) s₁ runs ∧
      Ends { c with write := c.failingFirst } sharing (.start sharingScene) s₁ runs' ∧
      runs.map (fun (task, done) => (task.name, done.verdict)) =
        [("first", .hasChanges), ("second", .noChanges)] ∧
      runs'.map (fun (task, done) => (task.name, done.verdict)) =
        [("first", .error), ("second", .hasChanges)] := by
  have ⟨hv, hv'⟩ := sharing_verdicts
  generalize ofWorld World.scripted sharing = c at hv hv' ⊢
  refine ⟨sharing_accepted, ?_, ?_, ?_⟩
  · intro task hn
    funext scene
    rw [failingFirst, if_neg hn]
  · intro task scene hn
    exact ⟨_, by rw [failingFirst, if_pos hn]⟩
  · rcases h : exec (c.parseAll sharing (sharing.fileSets.map Prod.fst)) (.start sharingScene) with
      ⟨_ | docs, s₁⟩
    case error => simp [verdicts, h] at hv
    case ok =>
      have h' : exec (parseAll { c with write := c.failingFirst } sharing
        (sharing.fileSets.map Prod.fst)) (.start sharingScene) = (.ok docs, s₁) := h
      exact ⟨s₁, _, _, ends_of_parsed sharing_accepted h, ends_of_parsed sharing_accepted h',
        verdicts_of_parsed h ▸ hv, verdicts_of_parsed h' ▸ hv'⟩

end Crew

end GraphqlArtifacts
