import Mathlib.Data.List.Infix
import GraphqlArtifacts.Proofs.Engine.Settled

namespace GraphqlArtifacts

open EngineState

namespace Engine

variable {σ : Type} {w : World σ} {accepts : Acceptance} {journal : Journal σ} {p : Plan}
  {scene : Scene σ} {s s₁ s' : EngineState σ} {name n : String} {set st : FileSet} {e : Data}
  {sets before : List (String × FileSet)} {names done outs changed files : List String} {c : String}
  {docs : List DocumentFile} {polls : Nat}

theorem snd_changedSets_cons_none (h : st.expression = none) :
    (exec (changedSets w p ((n, st) :: before)) s).2 = (exec (changedSets w p before) s).2 := by
  rw [changedSets, h]

theorem snd_changedSets_cons (h : st.expression = some e)
    (hf : exec (changesOf w n st e) s = (.ok files, s₁)) :
    (exec (changedSets w p ((n, st) :: before)) s).2 = (exec (changedSets w p before) s₁).2 := by
  simp only [changedSets, h]
  rw [exec_bind_of_ok hf, exec_bind]
  rcases exec (changedSets w p before) s₁ with ⟨_ | _, _⟩ <;> rfl

-- What the service tells of some sets leaves the documents of one as they should be, or names it.
-- In the first case they are those of the files at the time of the answer.
theorem changedSets_settled (hw : Faithful w p accepts journal) (hs : Sound w s)
    (hp : (name, set) ∈ p.fileSets) (hn : (sets.map Prod.fst).Nodup) (hm : (name, set) ∈ sets)
    (he : set.expression = some e)
    (hg : ∀ file content, accepts e file content → ¬ p.generates file)
    (hd : Settled w accepts journal name set e s c docs)
    (h : exec (changedSets w p sets) s = (.ok changed, s')) :
    name ∈ changed ∨ (∃ c', Settled w accepts journal name set e s' c' docs) ∧
      ∃ before, before <+: sets ∧
        set.Documents accepts e (exec (changedSets w p before) s).2.scene.tree docs := by
  induction sets generalizing s changed c
  case nil => simp at hm
  case cons head sets hi =>
    obtain ⟨n, st⟩ := head
    simp only [List.map_cons, List.nodup_cons] at hn
    obtain ⟨hn, hn'⟩ := hn
    by_cases hnm : name = n
    case pos =>
      have hst : set = st := by
        cases List.mem_cons.mp hm
        case inl h => exact (Prod.mk.inj h).right
        case inr h => exact absurd (hnm ▸ List.mem_map_of_mem h) hn
      subst hnm hst
      unfold changedSets at h
      simp only [he] at h
      obtain ⟨files, s₁, hf, h⟩ := exec_bind_ok.mp h
      obtain ⟨later, s₂, hl, h⟩ := exec_bind_ok.mp h
      cases h
      by_cases ha : files.all p.generates
      case neg => simp [ha]
      case pos =>
        obtain ⟨hc, c', hd⟩ := changesOf_settled hw hs hp he hd hf fun file hm content hc =>
          hg file content hc <| List.all_eq_true.mp ha file hm
        have hs₂ : Spares w journal (· = name) s₁ s' := by
          refine (Allows.changedSets fun m hm' => allows_spares hw ?_).exec hl
          rintro rfl
          exact hn hm'
        exact .inr ⟨⟨c', hd.spares hs₂ rfl⟩, [], List.nil_prefix, hc⟩
    case neg =>
      have hm : (name, set) ∈ sets := by
        cases List.mem_cons.mp hm
        case inl h => exact absurd (Prod.mk.inj h).left hnm
        case inr h => exact h
      cases hx : st.expression
      case none =>
        unfold changedSets at h
        simp only [hx] at h
        obtain hi | ⟨hd, before, hb, hi⟩ := hi hs hn' hm hd h
        · exact .inl hi
        · refine .inr ⟨hd, (n, st) :: before, List.cons_prefix_cons.mpr ⟨rfl, hb⟩, ?_⟩
          rwa [snd_changedSets_cons_none hx]
      case some e' =>
        unfold changedSets at h
        simp only [hx] at h
        obtain ⟨files, s₁, hf, h⟩ := exec_bind_ok.mp h
        obtain ⟨later, s₂, hl, h⟩ := exec_bind_ok.mp h
        cases h
        have hs₁ : Spares w journal (· ≠ n) s s₁ :=
          ((allows_spares hw (by simp)).changesOf _ _).exec hf
        obtain hi | ⟨hd, before, hb, hi⟩ := hi (hs.spares hs₁) hn' hm (hd.spares hs₁ hnm) hl
        · by_cases ha : files.all p.generates
          case pos => simp [ha, hi]
          case neg => simp [ha, hi]
        · refine .inr ⟨hd, (n, st) :: before, List.cons_prefix_cons.mpr ⟨rfl, hb⟩, ?_⟩
          rwa [snd_changedSets_cons hx hf]

theorem parseEach_sound (hw : Faithful w p accepts journal) (hs : Sound w s)
    (h : exec (parseEach w p names) s = (.ok (), s')) : Sound w s' := by
  have hk : Keeps (Spares w journal fun _ => False) (parseEach w p names) :=
    .forM fun _ _ => .discard <| parse_spares hw id
  exact hs.spares <| hk.exec h

theorem parseEach_settled (hw : Faithful w p accepts journal) (hs : Sound w s)
    (hl : Data.lookup name p.fileSets = some set) (hf : set.files = none)
    (he : set.expression = some e) (h : exec (parseEach w p names) s = (.ok (), s'))
    (hd : name ∈ names ∨ ∃ c docs, Settled w accepts journal name set e s c docs) :
    ∃ c docs, Settled w accepts journal name set e s' c docs := by
  induction names generalizing s
  case nil =>
    cases h
    simpa using hd
  case cons n names hi =>
    rw [parseEach_cons] at h
    rcases hp : exec (parse w p n) s with ⟨_ | docs, s₁⟩ <;> simp only [hp] at h
    case error => cases h
    case ok =>
      have hs₁ : Spares w journal (· ≠ n) s s₁ := (parse_spares hw (by simp)).exec hp
      refine hi (hs.spares hs₁) h ?_
      by_cases hn : name = n
      case pos =>
        subst hn
        have ⟨c, hd⟩ := parse_settled hw hs hl hf he hp
        exact .inr ⟨c, docs, hd⟩
      case neg =>
        refine hd.imp (fun hm => ?_) fun ⟨c, docs, hd⟩ => ⟨c, docs, hd.spares hs₁ hn⟩
        exact (List.mem_cons.mp hm).resolve_left hn

-- All documents that the service is asked about are as they should be.
structure AllSettled (w : World σ) (accepts : Acceptance) (journal : Journal σ) (p : Plan)
    (s : EngineState σ) : Prop where
  sound : Sound w s
  settled : ∀ {name set e}, (name, set) ∈ p.fileSets → set.files = none →
    set.expression = some e → ∃ c docs, Settled w accepts journal name set e s c docs

theorem AllSettled.spares (h : AllSettled w accepts journal p s)
    (hs : Spares w journal (fun _ => True) s s') : AllSettled w accepts journal p s' where
  sound := h.sound.spares hs
  settled hm hf he :=
    have ⟨c, docs, hd⟩ := h.settled hm hf he
    ⟨c, docs, hd.spares hs trivial⟩

theorem paused_spares (hw : Faithful w p accepts journal) :
    Spares w journal (fun _ => True) s (s.paused w) :=
  ⟨(hw.pause s.scene).later _, fun _ _ => rfl, fun _ _ => rfl⟩

-- Every set that is parsed is settled, and those that were so before still are.
theorem allSettled_parseEach (ha : p.Accepted) (hw : Faithful w p accepts journal) (hs : Sound w s)
    (h : exec (parseEach w p names) s = (.ok (), s'))
    (hd : ∀ {name set e}, (name, set) ∈ p.fileSets → set.files = none → set.expression = some e →
      name ∈ names ∨ ∃ c docs, Settled w accepts journal name set e s c docs) :
    AllSettled w accepts journal p s' where
  sound := parseEach_sound hw hs h
  settled hm hf he :=
    parseEach_settled hw hs (Data.lookup_of_mem ha.fileSets hm) hf he h (hd hm hf he)

-- Whenever a set was parsed, each output that depends on it was written later.
def Fresh (p : Plan) (events : List Event) : Prop :=
  ∀ before after out o n, events = before ++ .parsed n :: after →
    Data.lookup out p.outputs = some o → n ∈ o.sets → .written out ∈ after

theorem Fresh.step (h : Fresh p s.events) (hp : Parsed done s s₁) (hw : Wrote outs s₁ s')
    (ho : ∀ out o n, Data.lookup out p.outputs = some o → n ∈ o.sets → n ∈ done → out ∈ outs) :
    Fresh p s'.events := by
  have ⟨tail, ht, hf⟩ := hw.events
  intro before after out o n he hl hn
  rw [ht, hp.events, List.append_assoc] at he
  obtain ⟨mid, hs, rfl⟩ | ⟨mid, rfl, hm⟩ := append_eq_append_cons he
  · exact List.mem_append_left _ <| h before mid out o n hs hl hn
  obtain ⟨mid', hd, rfl⟩ | ⟨mid', rfl, hl'⟩ := append_eq_append_cons hm
  · have hm : .parsed n ∈ done.map Event.parsed := by simp [hd]
    have hm : n ∈ done := by simpa [Event.parsed_inj] using hm
    exact List.mem_append_right _ <| (Wrote.written_mem hf).mpr <| ho out o n hl hn hm
  · have hm : .parsed n ∈ tail := by simp [hl']
    exact absurd hm (Wrote.parsed_not_mem hf)

theorem exec_compileAffected_nil : exec (compileAffected p []) s = (.ok (), s) := by
  unfold compileAffected
  induction p.outputs
  case nil => rfl
  case cons head outs hi =>
    have hn : (head.2.sets.any ([] : List String).contains) = false := by simp
    rw [exec_forM_cons, exec_bind]
    simp only [hn]
    exact hi

-- A poll that is told of no change leaves all as it was but for the times.
theorem afterPoll_of_unchanged (h : exec (changedSets w p p.fileSets) (s.paused w) = (.ok [], s')) :
    afterPoll w p s = s' := by
  have ho : w.order.apply [] = [] := (w.order.perm []).eq_nil
  have hc : exec (parseChanged w p) (s.paused w) = (.ok [], s') := by
    rw [parseChanged, exec_bind_of_ok h, ho]
    rfl
  have hr : exec (recovering "Error while watching" (parseChanged w p)) _ = _ :=
    exec_recovering_of_ok hc
  have hp : exec (poll w p) s = (.ok (), s') :=
    (exec_bind_of_ok (exec_modify _ _)).trans <| (exec_bind_of_ok hr).trans exec_compileAffected_nil
  rw [afterPoll, hp]

-- The documents of all sets that the service is asked about are those that a parse would give now,
-- and each output is written since the last parse of a set that it depends on.
structure Converged (accepts : Acceptance) (p : Plan) (s : EngineState σ) : Prop where
  documents : ∀ {name set e}, (name, set) ∈ p.fileSets → set.files = none →
    set.expression = some e → ∃ docs, Data.lookup name s.documents = some docs ∧
      set.Documents accepts e s.scene.tree docs
  fresh : Fresh p s.events

theorem parseChanged_settled (ha : p.Accepted) (hw : Faithful w p accepts journal)
    (hg : ∀ {name set e}, (name, set) ∈ p.fileSets → set.expression = some e →
      ∀ file content, accepts e file content → ¬ p.generates file)
    (hall : AllSettled w accepts journal p s)
    (h : exec (parseChanged w p) (s.paused w) = (.ok changed, s')) :
    AllSettled w accepts journal p s' := by
  have hall := hall.spares <| paused_spares hw
  have ⟨_, s₁, hc, h⟩ := exec_bind_ok.mp h
  have ⟨_, s₂, hp, h⟩ := exec_bind_ok.mp h
  cases h
  have hs₁ : Spares w journal (fun _ => False) _ s₁ :=
    (Allows.changedSets fun _ _ => allows_spares hw id).exec hc
  refine allSettled_parseEach ha hw (hall.sound.spares hs₁) hp fun hm hn he => ?_
  have ⟨c, docs, hd⟩ := hall.settled hm hn he
  refine (changedSets_settled hw hall.sound hm ha.fileSets hm he (hg hm he) hd hc).imp
    (w.order.perm changed).mem_iff.mpr fun ⟨⟨c', hd⟩, _⟩ => ⟨c', docs, hd⟩

theorem watched_settled (ha : p.Accepted) (hs : p.hasService) (hw : Faithful w p accepts journal)
    (hg : ∀ {name set e}, (name, set) ∈ p.fileSets → set.expression = some e →
      ∀ file content, accepts e file content → ¬ p.generates file)
    (hc : ∃ s₁, exec (parseEach w p (p.fileSets.map Prod.fst)) (.start scene) = (.ok (), s₁))
    (hf : ∀ k < polls, Finishes w p (watched w p scene k)) :
    AllSettled w accepts journal p (watched w p scene polls) ∧
      Fresh p (watched w p scene polls).events := by
  induction polls
  case zero =>
    obtain ⟨s₁, hc⟩ := hc
    obtain ⟨_, s', he, hwr⟩ := compileAll_of_ok ha hc
    have hsd : Sound w (.start scene) := by simp [Sound, EngineState.start]
    have hall := allSettled_parseEach ha hw hsd hc fun hm _ _ => .inl <| List.mem_map_of_mem hm
    obtain ⟨done, _, _, hd, _, hp, hr⟩ := parseEach_parsed hc
    have hwr := hwr.trans <|
      .reported (e := .message "Watching for changes...") (by simp [Event.isStep])
    rw [watched_zero ha hs, compiled, he]
    refine ⟨hall.spares <| .ofWrote hwr, Fresh.step ?_ hp hwr fun out o n hl _ _ => ?_⟩
    · simp [Fresh, EngineState.start]
    · simpa using ⟨o, Data.mem_of_lookup hl⟩
  case succ m hi =>
    obtain ⟨hall, hfr⟩ := hi fun k hk => hf k <| Nat.lt_succ_of_lt hk
    obtain ⟨changed, s₂, hf⟩ := hf m <| Nat.lt_succ_self m
    obtain ⟨s', he, hwr⟩ := poll_of_ok ha hf
    obtain ⟨done, hp, hd⟩ := parseChanged_parsed hf
    have hfr : Fresh p ((watched w p scene m).paused w).events := hfr
    rw [watched_succ ha hs, afterPoll, he]
    refine ⟨(parseChanged_settled ha hw hg hall hf).spares <| .ofWrote hwr,
      Fresh.step hfr hp hwr fun out o n hl hn hm => ?_⟩
    rw [hd changed rfl, (w.order.perm changed).mem_iff] at hm
    exact (p.mem_affected ha hl).mpr ⟨n, hn, hm⟩

-- Once a poll is told of no change by answers about one and the same tree, all is as if the plan
-- was compiled from that tree.
theorem watched_converged (ha : p.Accepted) (hs : p.hasService)
    (hw : Faithful w p accepts journal)
    (hg : ∀ {name set e}, (name, set) ∈ p.fileSets → set.expression = some e →
      ∀ file content, accepts e file content → ¬ p.generates file)
    (hc : ∃ s₁, exec (parseEach w p (p.fileSets.map Prod.fst)) (.start scene) = (.ok (), s₁))
    (hf : ∀ k < polls, Finishes w p (watched w p scene k))
    (hq : exec (changedSets w p p.fileSets) ((watched w p scene polls).paused w) = (.ok [], s'))
    (ht : ∀ sets, sets <+: p.fileSets →
      (exec (changedSets w p sets) ((watched w p scene polls).paused w)).2.scene.tree =
        ((watched w p scene polls).paused w).scene.tree) :
    Converged accepts p (watched w p scene (polls + 1)) := by
  have ⟨hall, hfr⟩ := watched_settled ha hs hw hg hc hf
  have hall := hall.spares <| paused_spares hw
  rw [watched_succ ha hs, afterPoll_of_unchanged hq]
  constructor
  case documents =>
    intro name set e hm hn he
    have ⟨c, docs, hd⟩ := hall.settled hm hn he
    obtain h | ⟨⟨c', hd⟩, before, hb, h⟩ :=
      changedSets_settled hw hall.sound hm ha.fileSets hm he (hg hm he) hd hq
    case inl => simp at h
    case inr =>
      have hs' := ht _ List.prefix_rfl
      rw [hq] at hs'
      rw [ht before hb, ← hs'] at h
      exact ⟨docs, hd.documents, h⟩
  case fresh =>
    have he := ((changedSets_silent p.fileSets).exec hq).left
    exact he ▸ hfr

end Engine

namespace World

-- The bytes of the one file that is watched, if it is there.
def watchedBytes (t : Tree) : Option (List UInt8) :=
  (t.readBytes <| (⟨"/", []⟩ : Path).join "a.graphql").toOption

-- Whether an answer lists the file: if it is there, or if it is not as in a tree since a time.
def isListed (spec : Data) (s : Scene (List Tree)) : Bool :=
  match spec.get? "since" with
  | some (.text time) => (s.others.drop time.length).any (watchedBytes · != watchedBytes s.tree)
  | _                 => (watchedBytes s.tree).isSome

-- A time is as many letters as trees were found before.
def answerTo (words : List Data) (s : Scene (List Tree)) : Data :=
  match words with
  | [.text "query", _, spec] =>
    .table [("clock", .text <| String.ofList <| List.replicate s.others.length 'c'),
      ("files", .list <| if isListed spec s then [.text "a.graphql"] else [])]
  | _ => .table [("watch", .text "/")]

-- A service that remembers every tree that it finds. Somebody creates the file in the first pause.
def recorded : World (List Tree) where
  service words s := (.ok (answerTo words s), ⟨s.tree, s.others ++ [s.tree]⟩)
  pass s := ⟨s.tree, s.others ++ [s.tree]⟩
  pause s := ⟨if (watchedBytes s.tree).isNone then s.tree.set ["a.graphql"] (.file []) else s.tree,
    s.others ++ [s.tree]⟩

end World

namespace Engine

open World

def isWatched : Acceptance :=
  fun _ file _ => file == "a.graphql"

def foundSince : Journal (List Tree) :=
  fun trees time t => t ∈ trees.drop time.length

theorem remembers_recorded (s s' : Scene (List Tree)) (h : s'.others = s.others ++ [s.tree]) :
    Remembers foundSince s s' where
  kept := by
    intro c t ht
    simp only [foundSince, h, List.drop_append]
    exact List.mem_append_left _ ht
  found := by
    intro c t ht
    have hl := List.length_pos_of_mem ht
    rw [List.length_drop] at hl
    rw [foundSince, h, List.drop_append_of_le_length <| by omega]
    simp

theorem matches_iff_watchedBytes {t : Tree} {e : Data} {file : String} :
    t.Matches isWatched ⟨"/", []⟩ e file ↔ file = "a.graphql" ∧ (watchedBytes t).isSome := by
  constructor
  · intro ⟨content, hc, hf⟩
    have hf : file = "a.graphql" := eq_of_beq hf
    exact ⟨hf, by rw [watchedBytes, ← hf, hc]; rfl⟩
  · intro ⟨hf, hs⟩
    subst hf
    unfold watchedBytes at hs
    cases hc : t.readBytes ((⟨"/", []⟩ : Path).join "a.graphql") <;> simp [hc, Except.toOption] at hs
    exact ⟨_, hc, beq_self_eq_true _⟩

theorem get?_querySpec (v : Watch) (e : Data) (since : Option String) :
    (Watchman.querySpec v e since).get? "since" = since.map .text := by
  unfold Watchman.querySpec Data.get?
  cases v.relative.filter Data.holds <;> cases since <;> simp [Data.lookup]

theorem isListed_none {v : Watch} {e : Data} {s : Scene (List Tree)} :
    isListed (Watchman.querySpec v e none) s = (watchedBytes s.tree).isSome := by
  rw [isListed, get?_querySpec, Option.map_none]

theorem isListed_some {v : Watch} {e : Data} {c : String} {s : Scene (List Tree)} :
    isListed (Watchman.querySpec v e (some c)) s =
      (s.others.drop c.length).any (watchedBytes · != watchedBytes s.tree) := by
  rw [isListed, get?_querySpec, Option.map_some]

theorem answers_recorded {v : Watch} {e : Data} {since : Option String} {s s' : Scene (List Tree)}
    {r : QueryResult} (h : Answers recorded v e since s s' r) :
    s'.others = s.others ++ [s.tree] ∧ r.clock.length = s.others.length ∧
      r.files = if isListed (Watchman.querySpec v e since) s then ["a.graphql"] else [] := by
  have ⟨answer, ha, hr⟩ := h
  cases ha
  cases hl : isListed (Watchman.querySpec v e since) s
  all_goals
    simp [answerTo, hl, Watchman.resultOf, Watchman.optional, Watchman.required, Watchman.names,
      Data.lookup, bind, Except.bind, Data.items?, Data.display, pure, Except.pure] at hr
    simp [← hr, sortTexts]

theorem base_modules {name : String} {set : FileSet} (h : (name, set) ∈ Plan.modules.fileSets) :
    set.base = ⟨"/", []⟩ := by
  simp only [Plan.modules, List.map_cons, List.map_nil, List.mem_cons, Prod.mk.injEq,
    List.not_mem_nil, or_false] at h
  obtain ⟨_, rfl⟩ | ⟨_, rfl⟩ := h <;> rfl

theorem watchedBytes_ne {t t' : Tree} {file : String}
    (hn : t.readBytes ((⟨"/", []⟩ : Path).join file) ≠ t'.readBytes ((⟨"/", []⟩ : Path).join file))
    (hf : file = "a.graphql") (hs : (watchedBytes t).isSome ∨ (watchedBytes t').isSome) :
    watchedBytes t ≠ watchedBytes t' := by
  subst hf
  unfold watchedBytes at hs ⊢
  cases h : t.readBytes ((⟨"/", []⟩ : Path).join "a.graphql") <;>
    cases h' : t'.readBytes ((⟨"/", []⟩ : Path).join "a.graphql") <;>
    simp_all [Except.toOption]

theorem recorded_faithful : Faithful recorded .modules isWatched foundSince where
  pass s := remembers_recorded _ _ rfl
  pause s := remembers_recorded _ _ rfl
  service words s := remembers_recorded _ _ rfl
  all := by
    intro name set e v s s' r hm he hv ha
    have ⟨ho, hc, hf⟩ := answers_recorded ha
    rw [base_modules hm, hf, isListed_none]
    refine ⟨by split <;> simp, fun file => ?_, by simp [foundSince, ho, hc]⟩
    rw [matches_iff_watchedBytes]
    cases watchedBytes s.tree <;> simp
  since := by
    intro name set e v c s s' r hm he hv hj ha
    have ⟨ho, hc, hf⟩ := answers_recorded ha
    rw [base_modules hm, hf, isListed_some]
    refine ⟨fun file t ht hn hf => ?_, by simp [foundSince, ho, hc]⟩
    simp only [matches_iff_watchedBytes, ← and_or_left] at hf
    have hn := watchedBytes_ne hn hf.left hf.right
    have hl : (s.others.drop c.length).any (watchedBytes · != watchedBytes s.tree) :=
      List.any_eq_true.mpr ⟨t, ht, by simpa using hn⟩
    simp [hl, hf.left]

def nothingYet : Scene (List Tree) :=
  ⟨.empty, []⟩

theorem finishes_recorded :
    ∀ k < 1, Finishes recorded .modules (watched recorded .modules nothingYet k) := by
  intro k hk
  obtain rfl : k = 0 := by omega
  exact ⟨["js", "graphql"], exec_of_toOption <| by decide +kernel⟩

theorem still_recorded (sets : List (String × FileSet)) (h : sets <+: Plan.modules.fileSets) :
    (exec (changedSets recorded .modules sets)
      ((watched recorded .modules nothingYet 1).paused recorded)).2.scene.tree =
      ((watched recorded .modules nothingYet 1).paused recorded).scene.tree := by
  have hs : ∀ sets ∈ Plan.modules.fileSets.inits, (exec (changedSets recorded .modules sets)
      ((watched recorded .modules nothingYet 1).paused recorded)).2.scene.tree.entries =
      ((watched recorded .modules nothingYet 1).paused recorded).scene.tree.entries := by
    decide +kernel
  exact congrArg Tree.mk <| hs sets <| (List.mem_inits _ _).mpr h

theorem converged_recorded :
    (∃ s, exec (changedSets recorded .modules Plan.modules.fileSets)
      ((watched recorded .modules nothingYet 1).paused recorded) = (.ok [], s)) ∧
    Converged isWatched .modules (watched recorded .modules nothingYet 2) := by
  have hq : ∃ s, exec (changedSets recorded .modules Plan.modules.fileSets)
      ((watched recorded .modules nothingYet 1).paused recorded) = (.ok [], s) :=
    exec_of_toOption <| by decide +kernel
  have hg {name : String} {set : FileSet} {e : Data} (_ : (name, set) ∈ Plan.modules.fileSets)
      (_ : set.expression = some e) (file : String) (content : List UInt8)
      (_ : isWatched e file content) : ¬ Plan.modules.generates file := by
    simp [Plan.modules, Plan.generates]
  have hc : ∃ s, exec (parseEach recorded .modules (Plan.modules.fileSets.map Prod.fst))
      (.start nothingYet) = (.ok (), s) :=
    exec_of_toOption <| by decide +kernel
  exact ⟨hq, watched_converged Plan.modules_accepted rfl recorded_faithful hg hc finishes_recorded
    hq.choose_spec still_recorded⟩

end Engine

end GraphqlArtifacts
