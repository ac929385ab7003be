import GraphqlArtifacts.Proofs.Engine.Inputs

namespace GraphqlArtifacts

open EngineState

namespace Engine

variable {σ : Type} {w : World σ} {p : Plan} {scene : Scene σ} {s s₁ s' : EngineState σ}
  {name : String} {names changed : List String} {sets : List (String × FileSet)} {k m : Nat}

-- When the service is asked for the changes in some sets, its answer for one of them tells of a
-- file that no output generates. That its answer for a later set is a fault does not matter.
def ReportsAmong (w : World σ) (p : Plan) (name : String) :
    List (String × FileSet) → EngineState σ → Prop
  | [], _ => False
  | (n, set) :: sets, s =>
    match set.expression with
    | none => ReportsAmong w p name sets s
    | some expression =>
      match exec (changesOf w n set expression) s with
      | (.ok files, s₁) => (n = name ∧ ¬ files.all p.generates) ∨ ReportsAmong w p name sets s₁
      | (.error _, _)   => False

-- The next poll is told of a change in a set.
def Reports (w : World σ) (p : Plan) (s : EngineState σ) (name : String) : Prop :=
  ReportsAmong w p name p.fileSets (s.paused w)

-- The next poll meets no fault.
def Finishes (w : World σ) (p : Plan) (s : EngineState σ) : Prop :=
  ∃ changed s₁, exec (parseChanged w p) (s.paused w) = (.ok changed, s₁)

-- The next poll parses a set: the set and those before it in their order are parsed without fault.
def Reparses (w : World σ) (p : Plan) (s : EngineState σ) (name : String) : Prop :=
  ∃ changed s₁ before after s₂, exec (changedSets w p p.fileSets) (s.paused w) = (.ok changed, s₁) ∧
    w.order.apply changed = before ++ name :: after ∧
    exec (parseEach w p (before ++ [name])) s₁ = (.ok (), s₂)

-- A parse of a set is among the reports that were added.
def ParsedSince (name : String) (s s' : EngineState σ) : Prop :=
  .parsed name ∈ s'.events.drop s.events.length

namespace ParsedSince

theorem iff_of_append {tail : List Event} (h : s'.events = s.events ++ tail) :
    ParsedSince name s s' ↔ .parsed name ∈ tail := by
  simp [ParsedSince, h]

theorem trans_iff (h₁ : s.events <+: s₁.events) (h₂ : s₁.events <+: s'.events) :
    ParsedSince name s s' ↔ ParsedSince name s s₁ ∨ ParsedSince name s₁ s' := by
  obtain ⟨t₁, h₁⟩ := h₁
  obtain ⟨t₂, h₂⟩ := h₂
  have h : s'.events = s.events ++ (t₁ ++ t₂) := by rw [← h₂, ← h₁, List.append_assoc]
  rw [iff_of_append h₁.symm, iff_of_append h₂.symm, iff_of_append h, List.mem_append]

end ParsedSince

theorem ReportsAmong.head {set : FileSet} {expression : Data} {files : List String}
    (he : set.expression = some expression)
    (hf : exec (changesOf w name set expression) s = (.ok files, s'))
    (hg : ¬ files.all p.generates) : ReportsAmong w p name ((name, set) :: sets) s := by
  unfold ReportsAmong
  simp only [he, hf]
  exact .inl ⟨trivial, hg⟩

-- If all queries are answered, the changed sets are those with a report.
theorem mem_changedSets_iff (h : exec (changedSets w p sets) s = (.ok changed, s')) :
    name ∈ changed ↔ ReportsAmong w p name sets s := by
  induction sets generalizing s changed
  case nil => cases h; simp [ReportsAmong]
  case cons head sets hi =>
    unfold changedSets at h
    unfold ReportsAmong
    cases he : head.2.expression <;> rw [he] at h
    case none => exact hi h
    case some expression =>
      obtain ⟨files, s₁, hf, h⟩ := exec_bind_ok.mp h
      obtain ⟨later, s₂, hl, h⟩ := exec_bind_ok.mp h
      cases h
      simp only [hf, ← hi hl]
      by_cases hg : files.all p.generates
      case pos => simp [hg]
      case neg => simp [hg, eq_comm]

theorem parseEach_append (later : List String) : exec (parseEach w p (names ++ later)) s =
    match exec (parseEach w p names) s with
    | (.ok _, s₁)    => exec (parseEach w p later) s₁
    | (.error e, s₁) => (.error e, s₁) := by
  induction names generalizing s
  case nil => rfl
  case cons name names hi =>
    rw [List.cons_append, parseEach_cons, parseEach_cons]
    rcases exec (parse w p name) s with ⟨_ | _, s₁⟩
    case error => rfl
    case ok    => exact hi

theorem parsedSince_parseEach_iff {r : Except EngineFault Unit}
    (h : exec (parseEach w p names) s = (r, s')) : ParsedSince name s s' ↔
      ∃ before after s₁, names = before ++ name :: after ∧
        exec (parseEach w p (before ++ [name])) s = (.ok (), s₁) := by
  have ⟨done, rest, s₁, hd, he, hp, _⟩ := parseEach_parsed h
  rw [ParsedSince.iff_of_append hp.events]
  constructor
  case mp =>
    intro hm
    have ⟨n, hm, hn⟩ := List.mem_map.mp hm
    have ⟨before, after, ha⟩ := List.append_of_mem <| Event.parsed_inj.mp hn ▸ hm
    have ha' : done = (before ++ [name]) ++ after := by simp [ha]
    rw [ha', parseEach_append] at he
    rcases hb : exec (parseEach w p (before ++ [name])) s with ⟨_ | _, s₂⟩ <;> simp [hb] at he
    exact ⟨before, after ++ rest, s₂, by simp [hd, ha], hb⟩
  case mpr =>
    intro ⟨before, after, s₂, hn, hb⟩
    have hn : names = (before ++ [name]) ++ after := by simp [hn]
    rw [hn, parseEach_append, hb] at h
    have ⟨_, _, _, hd₂, _, hp₂, hr₂⟩ := parseEach_parsed hb
    have ⟨done', _, _, _, _, hp', _⟩ := parseEach_parsed h
    have hc := hp'.events.symm.trans hp.events
    rw [hp₂.events, List.append_assoc, List.append_cancel_left_eq] at hc
    simp [← hc, ← show before ++ [name] = _ from by simpa [hr₂ rfl] using hd₂]

theorem not_parsedSince_of_wrote (h : Wrote names s s') : ¬ ParsedSince name s s' := by
  have ⟨tail, he, hf⟩ := h.events
  rw [ParsedSince.iff_of_append he]
  exact Wrote.parsed_not_mem hf

theorem parsedSince_afterPoll_iff (ha : p.Accepted) (hs : p.hasService) :
    ParsedSince name s (afterPoll w p s) ↔ Reparses w p s name := by
  rcases hc : exec (changedSets w p p.fileSets) (s.paused w) with ⟨e | changed, s₁⟩
  all_goals have hq := (changedSets_silent _).exec hc
  case error =>
    have hw := Wrote.reported (s := s₁) (e := .error "Error while watching" e) nofun
    have hl : s₁.events = s.events := hq.left
    have hn : ¬ ParsedSince name s₁ _ := not_parsedSince_of_wrote hw
    rw [ParsedSince, hl, ← ParsedSince] at hn
    rw [afterPoll, poll_of_error hs <| exec_bind_of_error hc]
    simp [Reparses, hc, hn]
  case ok =>
    have hl : s₁.events = s.events := hq.left
    rcases he : exec (parseEach w p (w.order.apply changed)) s₁ with ⟨r, s₂⟩
    obtain ⟨_, _, _, _, _, hp, _⟩ := parseEach_parsed he
    obtain ⟨outs, hw⟩ : ∃ outs, Wrote outs s₂ (afterPoll w p s) := by
      obtain ⟨_, outs, s₃, _, hw, hr⟩ := afterPoll_steps (w := w) ha hs s
      have hs₂ : (exec (parseChanged w p) (s.paused w)).2 = s₂ := by
        rw [parseChanged, exec_bind_of_ok hc, exec_bind, he]
        cases r <;> rfl
      obtain ⟨_, hr, _⟩ | ⟨_, hr, _⟩ := hr
      all_goals exact ⟨outs, by rwa [← hs₂, hr]⟩
    obtain ⟨tail, ht, _⟩ := hw.events
    have hd : ParsedSince name s (afterPoll w p s) ↔ ParsedSince name s₁ s₂ := by
      have ht : ParsedSince name s₁ _ ↔ _ :=
        ParsedSince.trans_iff ⟨_, hp.events.symm⟩ ⟨tail, ht.symm⟩
      simp only [not_parsedSince_of_wrote hw, or_false] at ht
      rw [← ht, ParsedSince, ParsedSince, hl]
    rw [hd, parsedSince_parseEach_iff he]
    simp [Reparses, hc]

theorem prefix_afterPoll (ha : p.Accepted) (hs : p.hasService) :
    s.events <+: (afterPoll w p s).events := by
  have ⟨_, _, s₁, hp, hw, _⟩ := afterPoll_steps (w := w) ha hs s
  have ⟨tail, ht, _⟩ := hw.events
  have hp : s₁.events = s.events ++ _ := hp.events
  exact ⟨_, by rw [ht, hp, List.append_assoc]⟩

theorem parsedSince_watched_iff (ha : p.Accepted) (hs : p.hasService) :
    ParsedSince name (watched w p scene k) (watched w p scene (k + m)) ↔
      ∃ j < m, Reparses w p (watched w p scene (k + j)) name := by
  suffices h : (watched w p scene k).events <+: (watched w p scene (k + m)).events ∧
      (ParsedSince name (watched w p scene k) (watched w p scene (k + m)) ↔
        ∃ j < m, Reparses w p (watched w p scene (k + j)) name) from h.right
  induction m
  case zero => simp [ParsedSince]
  case succ m hi =>
    have hp := prefix_afterPoll (w := w) (s := watched w p scene (k + m)) ha hs
    rw [← Nat.add_assoc, watched_succ ha hs]
    refine ⟨hi.left.trans hp, ?_⟩
    rw [ParsedSince.trans_iff hi.left hp, hi.right, parsedSince_afterPoll_iff ha hs,
      Nat.exists_lt_succ_right]

-- A poll that meets no fault parses the sets that it is told of.
theorem Finishes.reparses_iff (h : Finishes w p s) : Reparses w p s name ↔ Reports w p s name := by
  have ⟨changed, s', h⟩ := h
  have ⟨changed', s₁, hc, h⟩ := exec_bind_ok.mp h
  have ⟨_, s₂, he, h⟩ := exec_bind_ok.mp h
  cases h
  rw [Reports, ← mem_changedSets_iff hc, ← (w.order.perm changed).mem_iff]
  constructor
  case mp =>
    rintro ⟨_, _, before, after, _, hc', ho, _⟩
    cases hc'.symm.trans hc
    simp [ho]
  case mpr =>
    intro hm
    have ⟨done, _, _, hd, _, hp, hr⟩ := parseEach_parsed he
    have hd : w.order.apply changed = done := by simpa [hr rfl] using hd
    have hp : ParsedSince name s₁ _ :=
      (ParsedSince.iff_of_append hp.events).mpr <| List.mem_map_of_mem <| hd ▸ hm
    have ⟨before, after, s₃, ho, hb⟩ := (parsedSince_parseEach_iff he).mp hp
    exact ⟨changed, s₁, before, after, s₃, hc, ho, hb⟩

-- What a poll is told of is parsed by the end of a later poll without fault exactly if it is the
-- same poll, if it is told again, or if a poll in between parses the set before it meets its fault.
-- Else the change is lost, as the service takes it for known.
theorem parsedSince_iff (ha : p.Accepted) (hs : p.hasService)
    (hr : Reports w p (watched w p scene k) name)
    (hm : Finishes w p (watched w p scene (k + m))) :
    ParsedSince name (watched w p scene k) (watched w p scene (k + m + 1)) ↔
      m = 0 ∨ Reports w p (watched w p scene (k + m)) name ∨
        ∃ j < m, Reparses w p (watched w p scene (k + j)) name := by
  rw [Nat.add_assoc, parsedSince_watched_iff ha hs, Nat.exists_lt_succ_right, hm.reparses_iff]
  cases m
  case zero   => simp [hr]
  case succ m => simp [or_comm]

open World (scripted answer refusal)

-- Nothing is parsed at first. The first poll is told of a change in one set, but is refused an
-- answer about the other. The second poll is told of nothing.
def refusedTwice : Scene (List (Except WatchmanFault Data)) :=
  ⟨⟨[]⟩, [answer [], refusal, answer [], answer ["app.js"], refusal, answer [], answer [], answer []]⟩

theorem refusedTwice_reports :
    Reports scripted .modules (watched scripted .modules refusedTwice 0) "js" :=
  have ⟨_, he⟩ : ∃ s, exec (changesOf scripted "js" _ (.text "js"))
      ((watched scripted .modules refusedTwice 0).paused scripted) = (.ok ["app.js"], s) :=
    exec_of_toOption <| by decide +kernel
  .head rfl he <| by decide

theorem refusedTwice_finishes :
    Finishes scripted .modules (watched scripted .modules refusedTwice 1) :=
  ⟨[], exec_of_toOption <| by decide +kernel⟩

theorem parsedSince_refusedTwice :
    Reports scripted .modules (watched scripted .modules refusedTwice 0) "js" ∧
    Finishes scripted .modules (watched scripted .modules refusedTwice 1) ∧
    (ParsedSince "js" (watched scripted .modules refusedTwice 0)
        (watched scripted .modules refusedTwice 2) ↔
      1 = 0 ∨ Reports scripted .modules (watched scripted .modules refusedTwice 1) "js" ∨
        ∃ j < 1, Reparses scripted .modules (watched scripted .modules refusedTwice (0 + j)) "js") :=
  ⟨refusedTwice_reports, refusedTwice_finishes, parsedSince_iff (k := 0) (m := 1)
    Plan.modules_accepted rfl refusedTwice_reports refusedTwice_finishes⟩

-- The set with the change is not parsed by the end of the second poll, nor is it told of again.
theorem refusedTwice_not_parsed :
    Reports scripted .modules (watched scripted .modules refusedTwice 0) "js" ∧
    ¬ Finishes scripted .modules (watched scripted .modules refusedTwice 0) ∧
    Finishes scripted .modules (watched scripted .modules refusedTwice 1) ∧
    ¬ ParsedSince "js" (watched scripted .modules refusedTwice 0)
      (watched scripted .modules refusedTwice 2) := by
  refine ⟨refusedTwice_reports, ?_, refusedTwice_finishes, ?_⟩
  · intro ⟨_, _, h⟩
    have ⟨_, _, he⟩ : ∃ e s, exec (parseChanged scripted .modules)
        ((watched scripted .modules refusedTwice 0).paused scripted) = (.error e, s) :=
      exec_of_toOption_none <| by decide +kernel
    cases h.symm.trans he
  · intro h
    have hn : (watched scripted .modules refusedTwice 2).events.any Event.isStep = false := by
      decide +kernel
    have hm := List.any_eq_false.mp hn _ <| List.mem_of_mem_drop h
    simp at hm

end Engine

end GraphqlArtifacts
