import GraphqlArtifacts.Proofs.Engine.Footprint
import GraphqlArtifacts.Proofs.Run.Plan

namespace GraphqlArtifacts

open Engine

namespace RunInput

-- The language of a run is JavaScript, whatever files there are when it is looked for.
def UsesJavascript (i : RunInput) : Prop :=
  ∀ {t language plugin}, i.settings.language = .ok language →
    (i.languages.resolve i.modules t i.directory language).1 = .ok (.plugin plugin) →
      plugin = .javascript

theorem usesJavascript {i : RunInput} (hl : i.settings.language = .ok "javascript")
    (hr : Data.lookup "javascript" i.languages.registered = some (.ok Plugin.javascript)) :
    i.UsesJavascript := by
  intro t language plugin hl' hp
  obtain rfl := Except.ok.inj <| hl'.symm.trans hl
  simp only [PluginRegistry.resolve, hr] at hp
  exact (PluginCandidate.plugin.inj <| Except.ok.inj hp).symm

-- The bounds of a run, as its settings name them.
structure HasBounds (i : RunInput) (b : Bounds) : Prop where
  source : ∃ text, Settings.pathText (i.settings .source) = .ok text ∧
    b.source = (i.directory.join text).normalize
  output : ∃ text, i.settings.artifactDirectory? = .ok text ∧
    b.output = text.map fun text => (i.directory.join text).normalize
  onlyValidate : b.onlyValidate = i.settings.isOn .validate

def MayTouch (i : RunInput) (parsed : Path → Prop) (place : List String) : Prop :=
  ∃ b, i.HasBounds b ∧ b.MayTouch parsed place

end RunInput

namespace Run

variable {σ α : Type} {w : World σ} {turns : σ → List Turn} {i : RunInput} {b : Bounds}
  {parsed : Path → Prop} {start : Tree} {s s' s₁ : EngineState σ} {p : Plan} {plugin : Plugin}
  {paths : RunPaths} {polls : Nat}

-- The files whose documents a run keeps after one of so many polls.
def HasParsed (w : World σ) (i : RunInput) (scene : Scene σ) (polls : Nat) (path : Path) : Prop :=
  ∃ k ≤ polls, Kept (exec (all w i k) (.start scene)).2 path

section

variable {R : EngineState σ → EngineState σ → Prop} [IsPreorder (EngineState σ) R]

theorem asksService_keeps (h : Keeps R (talk (Watchman.isAvailable w.service i.hasWatchman))) :
    Keeps R (asksService w i) := by
  unfold asksService
  split
  · exact h
  · exact .pure _

theorem fileSet_keeps {hasService onlyMentioning : Bool} {settings : Settings} {source : Path}
    {search : Search} {reader : DocumentReader} {schema : Schema} : Keeps R
      (fileSet hasService settings source search reader onlyMentioning schema : Run σ FileSet) := by
  refine .bind ?_ fun _ => .pure _
  unfold listed
  split
  · exact .pure _
  · exact .bind (fun s => refl_of R s) fun t => .bind (.step _) fun found => .pure _

theorem plan_keeps (h : Keeps R (talk (Watchman.isAvailable w.service i.hasWatchman))) :
    Keeps R (plan w i) := by
  have htree : Keeps R (tree : Run σ Tree) := fun s => refl_of R s
  unfold plan
  refine .bind htree fun t => .bind (.step _) fun paths => ?_
  refine .bind (asksService_keeps h) fun hasService => ?_
  refine .bind htree fun t => .bind (.step _) fun schema => .bind (.step _) fun language => ?_
  refine .bind htree fun t => .bind (.step _) fun candidate => .bind (.step _) fun plugin => ?_
  refine .bind (.step _) fun extensions => ?_
  refine .bind (.step _) fun text => .bind (.step _) fun includes => ?_
  refine .bind (.step _) fun excludes => ?_
  refine .bind fileSet_keeps fun sources => .bind fileSet_keeps fun documents => ?_
  refine .bind (.step _) fun scalars => .bind (.discard <| .step _) fun _ => ?_
  exact .bind (.step _) fun _ => .pure _

end

theorem asksService_acted {r : Except RunFault Bool} (h : exec (asksService w i) s = (r, s')) :
    Relation.ReflTransGen w.Acts s.scene s'.scene := by
  unfold asksService at h
  split at h
  case isTrue =>
    cases h
    exact isAvailable_acted i.hasWatchman (s.watches, s.scene)
  case isFalse =>
    cases h
    exact .refl

theorem exec_ofEngine (e : Engine σ α) :
    exec (ofEngine e : Run σ α) s = ((exec e s).1.mapError .engine, (exec e s).2) :=
  rfl

-- A run that only compiles says first that it could watch instead.
def hinted (i : RunInput) (s : EngineState σ) : EngineState σ :=
  if !i.settings.isOn .validate && !i.settings.isOn .watch && i.settings.isOn .watchman then
    s.reported (.message hint)
  else s

theorem all_watching (h : exec (plan w i) s = (.ok p, s₁)) (hv : i.settings.isOn .watch = true) :
    (exec (all w i polls) s).2 = (exec (watchAll w p polls) s₁).2 := by
  simp only [all, exec_bind_of_ok h, hv, Bool.not_true, Bool.and_false, Bool.false_and,
    Bool.false_eq_true, if_false, if_true, bind_pure_comp, exec_map, exec_ofEngine]

theorem all_once (h : exec (plan w i) s = (.ok p, s₁)) (hv : i.settings.isOn .watch = false) :
    (exec (all w i polls) s).2 = (exec (compileAll w p) (hinted i s₁)).2 := by
  simp only [all, exec_bind_of_ok h, hinted, hv, Bool.false_eq_true, if_false, bind_pure_comp]
  split
  · rw [exec_bind_of_ok (exec_ofEngine _), exec_map]
    rfl
  · rw [exec_map]
    rfl

section

variable (hw : w.Remembered turns)

include hw

theorem valid_of_acted {scene scene' : Scene σ} (h : Relation.ReflTransGen w.Acts scene scene')
    (ht : scene.tree.WellFormed) (hn : scene.tree.IsNamed) :
    scene'.tree.WellFormed ∧ scene'.tree.IsNamed := by
  induction h
  case refl => exact ⟨ht, hn⟩
  case tail _ ha hi => exact ⟨hw.wellFormed ha hi.left, hw.isNamed ha hi.right⟩

-- What is planned from the files in a valid tree is within the bounds that the settings name.
theorem plan_within (hj : i.UsesJavascript) (ht : s.scene.tree.WellFormed)
    (hn : s.scene.tree.IsNamed) (h : exec (plan w i) s = (.ok p, s')) :
    ∃ b, i.HasBounds b ∧ p.Within b := by
  have ⟨paths, plugin, hp⟩ := plan_made h
  have ⟨language, hl, hplugin⟩ := hp.language
  obtain rfl := hj hl hplugin
  have ⟨out, o, ho, hjs, text, htext, hd⟩ := hp.outputs
  have ⟨ht, hn⟩ := valid_of_acted hw (asksService_acted hp.service) ht hn
  have hout {name : String} {o' : Output} (hm : (name, o') ∈ p.outputs) : o' = o := by
    rw [ho] at hm
    exact (Prod.mk.inj <| List.mem_singleton.mp hm).right
  refine ⟨⟨paths.source, o.writer.outputDirectory, p.onlyValidate⟩, ⟨?_, ?_, ?_⟩, ?_⟩
  · exact validate_source hp.validated
  · exact ⟨text, htext, hd⟩
  · exact hp.onlyValidate
  constructor
  case source => exact validate_resolved hp.validated
  case output =>
    intro d hm
    rw [hd] at hm
    obtain ⟨text, _, rfl⟩ := Option.map_eq_some_iff.mp hm
    exact Path.isResolved_normalize _
  case onlyValidate => rfl
  case base => exact fun hm => (hp.fileSets hm).left
  case files =>
    intro name set hm files hf
    have ⟨search, hf⟩ := (hp.fileSets hm).right.right files hf
    exact findFiles_leadsDown ht hn hf
  case plugin => exact fun hm => hout hm ▸ hjs
  case directory => exact fun hm => by rw [hout hm]

-- A run without a plan does nothing, so that its bounds do not matter.
theorem plan_bounds (hj : i.UsesJavascript) (ht : s.scene.tree.WellFormed)
    (hn : s.scene.tree.IsNamed) : ∃ b : Bounds, (b.onlyValidate ∨ i.HasBounds b) ∧
      ∀ {p s₁}, exec (plan w i) s = (.ok p, s₁) → p.Within b := by
  rcases h : exec (plan w i) s with ⟨_ | p, s₁⟩
  case error => exact ⟨⟨i.directory, none, true⟩, .inl rfl, nofun⟩
  case ok =>
    have ⟨b, hb, hp⟩ := plan_within hw hj ht hn h
    refine ⟨b, .inr hb, fun he => ?_⟩
    cases he
    exact hp

theorem all_goes (hp : ∀ {p s₁}, exec (plan w i) s = (.ok p, s₁) → p.Within b)
    (hk : ∀ k ≤ polls, ∀ path, Kept (exec (all w i k) s).2 path → parsed path) :
    Goes turns b parsed start s (exec (all w i polls) s).2 := by
  have hplan : Keeps (Goes turns b parsed start) (plan w i) :=
    plan_keeps <| talk_goes hw <| isAvailable_acted _
  rcases h : exec (plan w i) s with ⟨_ | p, s₁⟩
  all_goals have hs : Goes turns b parsed start s s₁ := hplan.exec h
  case error =>
    rw [all, exec_bind_of_error h]
    exact hs
  case ok =>
    refine trans_of (Goes turns b parsed start) hs ?_
    cases hwatch : i.settings.isOn .watch
    case true =>
      simp only [all_watching h hwatch] at hk ⊢
      exact watchAll_goes hw (hp h) hk
    case false =>
      have hhint : Goes turns b parsed start s₁ (hinted i s₁) := by
        unfold hinted
        split
        · exact report_goes _ s₁
        · exact refl_of (Goes turns b parsed start) s₁
      simp only [all_once h hwatch] at hk ⊢
      exact trans_of (Goes turns b parsed start) hhint <|
        compileAll_goes hw (hp h) <| hk 0 (Nat.zero_le _)

end

variable {scene : Scene σ} (ht : scene.tree.WellFormed) (hb : turns scene.others = [])

include ht hb

theorem start_contained : Contained turns b parsed scene.tree (.start scene) where
  wellFormed := ht
  steps := by
    change OwnSteps _ _ (turns scene.others) _
    rw [hb]
    exact .refl scene.tree
  documents := by simp [EngineState.start, EngineState.documentsOf]

-- Whatever a run ends with, and whatever others do in the meantime, it alone changes nothing but
-- generated modules within its bounds, and nothing at all if it only validates. If others change
-- nothing, this is all that is not as at the start.
theorem all_contained {r : Except RunFault RunEnd} (hw : w.Remembered turns)
    (hj : i.UsesJavascript) (hn : scene.tree.IsNamed)
    (h : exec (all w i polls) (.start scene) = (r, s')) :
    OwnSteps (Tree.Confined (i.MayTouch (HasParsed w i scene polls))) scene.tree
        (turns s'.scene.others) s'.scene.tree ∧
      (i.settings.isOn .validate → OwnSteps (Tree.Confined fun _ => False) scene.tree
        (turns s'.scene.others) s'.scene.tree) ∧
      ((∀ turn ∈ turns s'.scene.others, turn.left = turn.found) →
        scene.tree.Confined (i.MayTouch (HasParsed w i scene polls)) s'.scene.tree) := by
  have ⟨b, hbounds, hwithin⟩ := plan_bounds hw hj (s := .start scene) ht hn
  have hgoes : Goes turns b (HasParsed w i scene polls) scene.tree _ _ :=
    all_goes hw hwithin fun k hk path hp => ⟨k, hk, hp⟩
  have hc := hgoes (start_contained ht hb)
  rw [h] at hc
  have hmay {place : List String} (hm : b.MayTouch (HasParsed w i scene polls) place) :
      i.HasBounds b := hbounds.resolve_left <| by simp [hm.writes]
  have hsteps : OwnSteps (Tree.Confined (i.MayTouch (HasParsed w i scene polls))) _ _ _ :=
    hc.steps.mono fun t u hu => hu.mono fun place hm => ⟨b, hmay hm, hm⟩
  refine ⟨hsteps, fun hv => ?_, hsteps.join⟩
  refine hsteps.mono fun t u hu => hu.mono fun place ⟨b, hb, hm⟩ => ?_
  simpa [hv, hm.writes] using hb.onlyValidate

end Run

-- A world without a service, in which nobody else does anything.
def World.alone : World Unit where
  service _ s := (.error (.service (.notRun "not installed")), s)
  pass s := s
  pause s := s

theorem World.alone_remembered : World.alone.remembering.Remembered Prod.snd := by
  have hacts {s s' : Scene Unit} (h : World.alone.Acts s s') : s' = s := by
    cases h <;> rfl
  refine remembering_remembered ?_ ?_ ?_
  · rintro _ _ h ht
    exact hacts h ▸ ht
  · rintro _ _ h hn
    exact hacts h ▸ hn
  · rintro _ _ _ _ _ _ ⟨_, h, _⟩
    cases h

namespace Run

-- A query in a source.
def appTree : Tree :=
  ((Tree.empty.set ["schema.graphql"] (.file (Utf8.encode "type Query \x7b id: ID \x7d"))).set
    ["src"] .directory).set ["src", "App.js"] (.file (Utf8.encode "graphql`query Q \x7b id \x7d`"))

theorem appTree_wellFormed : appTree.WellFormed := by
  have h₁ := @Tree.Became.set _ ["schema.graphql"]
    (.file (Utf8.encode "type Query \x7b id: ID \x7d")) .empty (by decide) (by decide) (by decide)
    (by decide)
  have h₂ := @Tree.Became.set _ ["src"] .directory h₁.wellFormed (by decide) (by decide)
    (by decide +kernel) (by decide +kernel)
  exact (Tree.Became.set h₂.wellFormed (by decide) (by decide) (by decide +kernel)
    (by decide +kernel)).wellFormed

theorem appTree_isNamed : appTree.IsNamed := by
  have h : ∀ entry ∈ appTree.entries, ∀ name ∈ entry.1, name ≠ "" ∧ '/' ∉ name.toList := by
    decide +kernel
  intro place e hm
  exact h _ hm

def appRun : RunInput where
  settings := ((Settings.defaults.set .schema (.text "schema.graphql")).set .source
    (.text "src")).set .watchman (.bool false)
  directory := ⟨"/", []⟩
  languages := .start []
  modules := ⟨[], []⟩
  hasWatchman := false

def appEnd : Except RunFault RunEnd × EngineState (Unit × List Turn) :=
  exec (all World.alone.remembering appRun 0) (.start ⟨appTree, (), []⟩)

theorem all_contained_app : appEnd.1.toOption = some (.finished 0) ∧
    (appEnd.2.scene.tree.bytesAt ["src", "__generated__", "Q.graphql.js"]).isSome ∧
    appTree.Confined
      (appRun.MayTouch (HasParsed World.alone.remembering appRun ⟨appTree, (), []⟩ 0))
      appEnd.2.scene.tree := by
  have hl : ∀ turn ∈ appEnd.2.scene.others.2, turn.left.entries = turn.found.entries := by
    decide +kernel
  refine ⟨by decide +kernel, by decide +kernel, ?_⟩
  -- It is no more than an end of the run from here on, so that nothing evaluates it.
  rcases h : appEnd with ⟨r, s'⟩
  rw [h] at hl
  have hjs : appRun.UsesJavascript := RunInput.usesJavascript rfl rfl
  have hc := all_contained appTree_wellFormed rfl World.alone_remembered hjs appTree_isNamed h
  exact hc.right.right fun turn hm => congrArg Tree.mk <| hl turn hm

end Run

end GraphqlArtifacts
