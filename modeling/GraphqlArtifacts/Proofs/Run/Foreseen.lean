import GraphqlArtifacts.CommandLine.Execute
import GraphqlArtifacts.Proofs.CommandLine.Overlay
import GraphqlArtifacts.Proofs.Config.Layers
import GraphqlArtifacts.Proofs.Discovery.Faults
import GraphqlArtifacts.Proofs.Glob.Ranges
import GraphqlArtifacts.Proofs.Run.Footprint

namespace GraphqlArtifacts

open Engine

-- The searches of a run, for sources of JavaScript and for documents in files of their own.
def RunInput.searches (i : RunInput) (paths : RunPaths) : Except SettingFault (List Search) := do
  let extensions := (← i.settings.extensions?).getD Plugin.javascript.inputExtensions
  let includes ← i.settings.includes
  let excludes ← i.settings.excludes
  return [.sources extensions includes excludes,
    .documents paths.source paths.schema includes excludes]

namespace Run

variable {σ α β : Type} {w : World σ} {i : RunInput} {s s' s₁ : EngineState σ} {p : Plan}
  {paths : RunPaths} {hasService onlyMentioning : Bool} {settings : Settings} {source : Path}
  {search : Search} {reader : DocumentReader} {schema : Schema} {r : Except RunFault α} {a : α}
  {m : Run σ α} {f : α → Run σ β} {e : RunFault}

-- The exit codes of a run. A run that could not begin has another one.
def exitCodes : List Nat :=
  [0, 100, 101]

-- A run ends with one of its exit codes, or with a fault that it reports as a message.
inductive IsForeseen : Except RunFault RunEnd → Prop
  | finished {code : Nat} (h : code ∈ exitCodes) : IsForeseen (.ok (.finished code))
  | stopped : IsForeseen (.ok .stopped)
  | fault {e : RunFault} (h : e.isForeseen) : IsForeseen (.error e)

theorem isForeseen_error : IsForeseen (.error e) ↔ e.isForeseen :=
  ⟨fun | .fault h => h, .fault⟩

theorem exitCode_mem (outcome : Outcome) (validate : Bool) :
    outcome.exitCode validate ∈ exitCodes := by
  cases outcome <;> cases validate <;> decide

theorem isForeseen_engine {e : EngineFault} (h : ¬ e.IsRecoverable) :
    (RunFault.engine e).isForeseen := by
  obtain ⟨c, rfl⟩ := EngineFault.exists_configuration h
  rfl

theorem not_isForeseen_search (fault : SearchFault) : ¬ (RunFault.search fault).isForeseen := by
  rcases fault with _ | (_ | _) <;> exact Bool.noConfusion

-- All faults with which a part of a run ends, when it begins in a state, are foreseen.
def Foresees (m : Run σ α) (s : EngineState σ) : Prop :=
  ∀ e s', exec m s = (.error e, s') → e.isForeseen

theorem foresees_of_ok (h : exec m s = (.ok a, s₁)) : Foresees m s := by
  intro e s' he
  cases h.symm.trans he

theorem foresees_of_error (h : exec m s = (.error e, s₁)) : Foresees m s ↔ e.isForeseen := by
  refine ⟨fun hm => hm e s₁ h, fun hf e' s' he => ?_⟩
  cases h.symm.trans he
  exact hf

theorem foresees_bind_of_ok (h : exec m s = (.ok a, s₁)) :
    Foresees (m >>= f) s ↔ Foresees (f a) s₁ := by
  rw [Foresees, Foresees, exec_bind_of_ok h]

theorem foresees_ofStep_bind {g : α → Run σ β} (h : r = .ok a) :
    Foresees (ofStep r >>= g) s ↔ Foresees (g a) s :=
  foresees_bind_of_ok <| exec_ofStep_ok.mpr ⟨h, rfl⟩

theorem foresees_check (p : Plan) :
    Foresees (do ofStep (p.check.mapError fun e => .engine (.configuration e)); return p) s := by
  intro e s' h
  cases hp : p.check
  all_goals rw [hp] at h
  case ok    => cases h
  case error => cases h; rfl

theorem exec_listed : exec (listed false settings source search) s =
    (((findFiles s.scene.tree source search (settings.isOn .respectIgnoreFiles)).mapError
      RunFault.search).map some, s) := by
  rw [listed]
  simp only [Bool.false_eq_true, if_false, exec_bind_of_ok (exec_tree s), exec_map, ofStep, exec_step]

-- Planning a set of files fails if the files are looked for and that fails.
theorem foresees_fileSet_bind {Q : Prop} {f : FileSet → Run σ β}
    (hf : ∀ set, Foresees (f set) s ↔ Q) :
    Foresees (fileSet hasService settings source search reader onlyMentioning schema >>= f) s ↔
      (hasService = false → ∃ files, findFiles s.scene.tree source search
        (settings.isOn .respectIgnoreFiles) = .ok files) ∧ Q := by
  cases hasService
  case true =>
    have ⟨set, hs⟩ : ∃ set, exec (fileSet true settings source search reader onlyMentioning schema)
        s = (.ok set, s) := ⟨_, rfl⟩
    rw [foresees_bind_of_ok hs, hf]
    simp
  case false =>
    have hl : exec (listed false settings source search) s = _ := exec_listed
    rcases hr : findFiles s.scene.tree source search (settings.isOn .respectIgnoreFiles)
      with fault | files
    case error =>
      have hs : exec (fileSet false settings source search reader onlyMentioning schema) s =
          (.error (.search fault), s) := exec_bind_of_error <| by rw [hl, hr]; rfl
      rw [foresees_of_error <| exec_bind_of_error hs]
      simp [not_isForeseen_search]
    case ok =>
      have ⟨set, hs⟩ : ∃ set, exec (fileSet false settings source search reader onlyMentioning
          schema) s = (.ok set, s) := ⟨_, exec_bind_of_ok <| by rw [hl, hr]; rfl⟩
      rw [foresees_bind_of_ok hs, hf]
      simp

-- A run with settings that can be used, a schema that can be loaded, and the plugin for JavaScript.
-- Others act only while it is asked whether there is a service.
structure Ready (w : World σ) (i : RunInput) (s s' : EngineState σ) (paths : RunPaths)
    (hasService : Bool) : Prop where
  typed : i.settings.IsTyped
  validated : validate s.scene.tree i.settings i.directory = .ok paths
  service : exec (asksService w i) s = (.ok hasService, s')
  schema : ∃ schema, Schema.load s'.scene.tree paths.schema = .ok schema
  language : ∃ language, i.settings.language = .ok language ∧
    (i.languages.resolve i.modules s'.scene.tree i.directory language).1 =
      .ok (.plugin .javascript)

theorem foresees_plan_iff (h : Ready w i s s' paths hasService) : ∃ searches,
    i.searches paths = .ok searches ∧ (Foresees (plan w i) s ↔ (hasService = false →
      ∀ search ∈ searches, ∃ files, findFiles s'.scene.tree paths.source search
        (i.settings.isOn .respectIgnoreFiles) = .ok files)) := by
  have ⟨schema, hschema⟩ := h.schema
  have ⟨language, hlanguage, hplugin⟩ := h.language
  have ⟨extensions, hextensions⟩ := h.typed.exists_extensions
  have ⟨text, htext⟩ := h.typed.exists_artifactDirectory
  have ⟨includes, hincludes⟩ := h.typed.exists_includes
  have ⟨excludes, hexcludes⟩ := h.typed.exists_excludes
  have ⟨scalars, hscalars⟩ := h.typed.exists_customScalars
  have ⟨interval, hinterval⟩ := h.typed.exists_pollInterval
  have hwaits : exec (discard (ofStep (i.settings.pollInterval.mapError .setting)) : Run σ PUnit) s' =
      (.ok ⟨⟩, s') := by
    rw [exec_discard, ofStep, exec_step, hinterval]
    rfl
  have hused : usable i.settings (.plugin .javascript) = .ok .javascript := rfl
  refine ⟨[.sources (extensions.getD Plugin.javascript.inputExtensions) includes excludes,
    .documents paths.source paths.schema includes excludes], ?_, ?_⟩
  · simp [RunInput.searches, hextensions, hincludes, hexcludes, bind, Except.bind, pure, Except.pure]
  rw [plan, foresees_bind_of_ok (exec_tree s), foresees_ofStep_bind (mapError_ok.mpr h.validated),
    foresees_bind_of_ok h.service, foresees_bind_of_ok (exec_tree s'),
    foresees_ofStep_bind (mapError_ok.mpr hschema),
    foresees_ofStep_bind (mapError_ok.mpr hlanguage), foresees_bind_of_ok (exec_tree s'),
    foresees_ofStep_bind (mapError_ok.mpr hplugin),
    foresees_ofStep_bind hused,
    foresees_ofStep_bind (mapError_ok.mpr hextensions),
    foresees_ofStep_bind (mapError_ok.mpr htext),
    foresees_ofStep_bind (mapError_ok.mpr hincludes),
    foresees_ofStep_bind (mapError_ok.mpr hexcludes)]
  -- All that can fail once the files are known is the check of the plan.
  refine (foresees_fileSet_bind fun sources => foresees_fileSet_bind (Q := True) fun documents =>
    iff_true_intro ?_).trans ?_
  case refine_1 =>
    rw [foresees_ofStep_bind (mapError_ok.mpr hscalars), foresees_bind_of_ok hwaits]
    exact foresees_check _
  case refine_2 =>
    simp [forall_and]

theorem ofEngine_raises {x : Engine σ α} (h : Raises (¬ ·.IsRecoverable) x) :
    Raises (fun e => e.isForeseen) (ofEngine x) := by
  intro s e s' he
  rw [exec_ofEngine] at he
  have ⟨e', hx, hf⟩ := mapError_error.mp (Prod.mk.inj he).left
  exact hf ▸ isForeseen_engine (h s e' _ (Prod.ext hx rfl))

theorem isForeseen_bind {f : α → Run σ RunEnd} (hm : Raises (fun e => e.isForeseen) m)
    (hf : ∀ a s, IsForeseen (exec (f a) s).1) : IsForeseen (exec (m >>= f) s).1 := by
  rw [exec_bind]
  rcases he : exec m s with ⟨e | a, s'⟩
  case error => exact .fault <| hm s e s' he
  case ok    => exact hf a s'

-- Whatever a plan is, carrying it out ends as foreseen.
theorem all_isForeseen_of_plan (h : exec (plan w i) s = (.ok p, s₁)) (polls : Nat) :
    IsForeseen (exec (all w i polls) s).1 := by
  have ha : p.Accepted := (plan_ok h).left
  have hreport : Raises (fun e => e.isForeseen) (ofEngine (report (.message hint)) : Run σ Unit) :=
    ofEngine_raises <| .modify _
  rw [all, exec_bind_of_ok h]
  dsimp only
  cases i.settings.isOn .watch
  case true =>
    rw [Bool.not_true, Bool.and_false, Bool.false_and]
    exact isForeseen_bind (ofEngine_raises <| watchAll_raises ha polls) fun _ _ => .stopped
  case false =>
    have hcompile (s : EngineState σ) : IsForeseen (exec (do
        let outcome ← ofEngine (compileAll w p)
        return .finished (outcome.exitCode (i.settings.isOn .validate))) s).1 :=
      isForeseen_bind (ofEngine_raises <| compileAll_raises ha) fun _ _ =>
        .finished <| exitCode_mem ..
    split
    · exact isForeseen_bind hreport fun _ s => hcompile s
    · exact hcompile s₁

theorem all_isForeseen_iff_plan (polls : Nat) :
    IsForeseen (exec (all w i polls) s).1 ↔ Foresees (plan w i) s := by
  rcases h : exec (plan w i) s with ⟨e | p, s₁⟩
  case error =>
    rw [foresees_of_error h, all, exec_bind_of_error h, isForeseen_error]
  case ok => exact iff_of_true (all_isForeseen_of_plan h polls) (foresees_of_ok h)

end Run

namespace CommandLine

variable {σ : Type} {w : World σ} {c : Invocation} {i : RunInput} {scene : Scene σ} {polls : Nat}
  {m : Measures}

-- The exit codes of a command: those of a run, and another if the run could not begin.
def exitCodes : List Nat :=
  1 :: Run.exitCodes

-- The run that a command line asks for in some files.
def Invocation.Asks (c : Invocation) (t : Tree) (i : RunInput) : Prop :=
  ∃ a loaded, endOrArguments c.words = .ok a ∧
    Settings.load t c.directory c.environment = .ok loaded ∧
    i = ⟨a.overlay loaded, c.directory, c.languages, c.modules, c.hasWatchman⟩

theorem execute_of_asks (h : c.Asks scene.tree i) (w : World σ) (m : Measures) (polls : Nat) :
    ∃ events, (execute w c m polls scene).1 =
      finish m i.settings events (exec (Run.all w i polls) (.start scene)).1 := by
  have ⟨a, loaded, ha, hl, hi⟩ := h
  refine ⟨(exec (Run.all w i polls) (.start scene)).2.events, ?_⟩
  simp only [execute, ha, runWith, hl, hi]
  rfl

-- A command ends with an exit code exactly if its run ends as foreseen.
theorem execute_code_iff (h : c.Asks scene.tree i) :
    (∃ e, (execute w c m polls scene).1 = .ok e ∧ e.code ∈ exitCodes) ↔
      Run.IsForeseen (exec (Run.all w i polls) (.start scene)).1 := by
  have ⟨events, he⟩ := execute_of_asks h w m polls
  rw [he]
  rcases hr : exec (Run.all w i polls) (.start scene) with ⟨e | fin, s'⟩
  case error => cases hf : e.isForeseen <;> simp [finish, hf, Run.isForeseen_error, exitCodes]
  case ok =>
    obtain ⟨p, s₁, hp, -⟩ := exec_bind_ok.mp hr
    have hf := Run.all_isForeseen_of_plan hp polls
    rw [hr] at hf
    refine iff_of_true ?_ hf
    cases hf
    case stopped       => exact ⟨_, rfl, List.mem_cons_of_mem _ List.mem_cons_self⟩
    case finished hmem => exact ⟨_, rfl, List.mem_cons_of_mem _ hmem⟩

end CommandLine

namespace Run

variable {σ : Type} {w : World σ} {i : RunInput} {s' : EngineState σ} {paths : RunPaths}
  {hasService : Bool} {scene : Scene σ}

-- What is asked of a pattern so that it is not faulty: its sets end within it, and can be read.
def HasReadableSets (pattern : String) : Prop :=
  (∀ segment ∈ Glob.segments pattern.toList, ¬ segment.isOpen) ∧
    ∀ body ∈ Glob.sets pattern.toList, (Glob.CharSet.ofBody? body).isSome

-- A run that is ready ends as foreseen, and its command with an exit code, exactly if the files are
-- not looked for, or if looking for them does not fail: no search comes to an entry at which it
-- looks at a faulty pattern. So patterns whose sets can be read do no harm.
theorem all_isForeseen_iff (h : Ready w i (.start scene) s' paths hasService) (polls : Nat) :
    ∃ searches, i.searches paths = .ok searches ∧
      (IsForeseen (exec (all w i polls) (.start scene)).1 ↔ (hasService = false →
        ∀ search ∈ searches, ∃ files, findFiles s'.scene.tree paths.source search
          (i.settings.isOn .respectIgnoreFiles) = .ok files)) ∧
      (s'.scene.tree.WellFormed → i.settings.isOn .respectIgnoreFiles = false →
        (IsForeseen (exec (all w i polls) (.start scene)).1 ↔ (hasService = false →
          ∀ search ∈ searches, ¬ s'.scene.tree.Stumbles paths.source search)) ∧
        ((∀ search ∈ searches, ∀ pattern ∈ search.filePatterns ++ search.excludes,
          HasReadableSets pattern) → IsForeseen (exec (all w i polls) (.start scene)).1)) ∧
      ∀ {c : CommandLine.Invocation} (m : CommandLine.Measures), c.Asks scene.tree i →
        ((∃ e, (CommandLine.execute w c m polls scene).1 = .ok e ∧
          e.code ∈ CommandLine.exitCodes) ↔
            IsForeseen (exec (all w i polls) (.start scene)).1) := by
  have ⟨searches, hsearches, hplan⟩ := foresees_plan_iff h
  rw [← all_isForeseen_iff_plan polls] at hplan
  refine ⟨searches, hsearches, hplan, fun ht hoff => ?_, fun m hasks =>
    CommandLine.execute_code_iff hasks⟩
  have hstumbles : IsForeseen (exec (all w i polls) (.start scene)).1 ↔ (hasService = false →
      ∀ search ∈ searches, ¬ s'.scene.tree.Stumbles paths.source search) := by
    simp only [hplan, hoff, findFiles_ok_iff ht]
  refine ⟨hstumbles, fun hread => hstumbles.mpr fun _ search hm => ?_⟩
  have hscan : search.IsScannable := by
    have hc : ∀ pattern ∈ search.filePatterns ++ search.excludes, Glob.Compiles pattern :=
      fun pattern hp => have ⟨hopen, hsets⟩ := hread search hm pattern hp
        (Glob.compiles_iff hopen).mpr hsets
    rw [List.forall_mem_append] at hc
    exact ⟨hc.left, hc.right⟩
  rintro ⟨place, parts, e, _, _, _, _, hs⟩
  exact Search.not_stumblesAt hscan hs

-- An application with a query, and a command and its run over it with a pattern to include.

def appScene : Scene Unit :=
  ⟨appTree, ()⟩

def appPaths : RunPaths :=
  ⟨⟨"/", ["schema.graphql"]⟩, ⟨"/", ["src"]⟩⟩

def includingFlags (pattern : String) : List CommandLine.Given :=
  [.one .schema "schema.graphql", .one .source "src", .switch .noWatchman,
    .several .includes pattern []]

def including (pattern : String) : CommandLine.Invocation where
  words := (includingFlags pattern).flatMap CommandLine.Given.words
  directory := appRun.directory
  environment := []
  languages := appRun.languages
  modules := appRun.modules
  hasWatchman := appRun.hasWatchman

def includingRun (pattern : String) : RunInput :=
  { appRun with settings := appRun.settings.set .includes (Settings.ofTexts [pattern]) }

theorem including_asks {pattern : String} (h : pattern.toList.head? ≠ some '-') :
    (including pattern).Asks appScene.tree (includingRun pattern) := by
  have hplain : ∀ g ∈ includingFlags pattern, g.IsPlain := by
    simp only [includingFlags, List.forall_mem_cons]
    exact ⟨⟨by decide, nofun⟩, ⟨by decide, nofun⟩, ⟨by decide, nofun⟩,
      ⟨by simpa [CommandLine.Given.values] using h, nofun⟩, by simp⟩
  have hload : Settings.load appTree appRun.directory [] = .ok Settings.defaults := by
    refine congrArg Except.ok <| funext fun name => ?_
    cases name <;> rfl
  refine ⟨(includingFlags pattern).foldl CommandLine.Given.added .none, _, ?_, hload, rfl⟩
  simp only [CommandLine.endOrArguments, including, CommandLine.read_words hplain]

theorem includingRun_ready (pattern : String) : Ready World.alone (includingRun pattern)
    (.start appScene) (.start appScene) appPaths false where
  typed := by
    have hschema : OptionName.schema.Takes (.text "schema.graphql") := ⟨_, rfl⟩
    have hsource : OptionName.source.Takes (.text "src") := ⟨_, rfl⟩
    have hservice : OptionName.watchman.Takes (.bool false) := ⟨_, rfl⟩
    have hincludes : OptionName.includes.Takes (Settings.ofTexts [pattern]) := ⟨_, rfl⟩
    exact ((Settings.isTyped_defaults.set hschema).set hsource).set hservice |>.set hincludes
  validated := rfl
  service := rfl
  schema := by
    have h : (Schema.load appTree appPaths.schema).toOption.isSome := by decide +kernel
    have ⟨schema, hs⟩ := Option.isSome_iff_exists.mp h
    exact ⟨schema, ok_of_toOption hs⟩
  language := ⟨"javascript", rfl, rfl⟩

theorem all_isForeseen_including :
    IsForeseen (exec (all World.alone (includingRun "[a-z]*") 0) (.start appScene)).1 ∧
      ∀ m, ∃ e, (CommandLine.execute World.alone (including "[a-z]*") m 0 appScene).1 = .ok e ∧
        e.code ∈ CommandLine.exitCodes := by
  obtain ⟨searches, hs, _, hread, hcommand⟩ := all_isForeseen_iff (includingRun_ready "[a-z]*") 0
  have hf := (hread appTree_wellFormed rfl).right <| by
    cases hs
    unfold HasReadableSets
    decide +kernel
  exact ⟨hf, fun m => (hcommand m <| including_asks <| by decide).mpr hf⟩

-- A range with its ends reversed is a faulty pattern, which is looked at for the first file.
theorem all_reversedRange : Ready World.alone (includingRun "[z-a]") (.start appScene)
      (.start appScene) appPaths false ∧
    ¬ IsForeseen (exec (all World.alone (includingRun "[z-a]") 0) (.start appScene)).1 ∧
    ∀ m, ∃ fault, fault.kindName = "re.error" ∧
      (CommandLine.execute World.alone (including "[z-a]") m 0 appScene).1 = .error fault := by
  have h : (exec (all World.alone (includingRun "[z-a]") 0) (.start appScene)).1.mapError
    RunFault.kindName = .error "re.error" := by decide +kernel
  have ⟨e, he, hk⟩ := mapError_error.mp h
  have hf : e.isForeseen = false := by
    rw [RunFault.isForeseen, hk]
    decide
  refine ⟨includingRun_ready _, by simp [he, isForeseen_error, hf], fun m => ⟨.run e, hk, ?_⟩⟩
  have hasks : (including "[z-a]").Asks appScene.tree (includingRun "[z-a]") :=
    including_asks <| by decide
  have ⟨events, hx⟩ := CommandLine.execute_of_asks hasks World.alone m 0
  rw [hx, he, CommandLine.finish]
  simp only [hf]
  rfl

end Run

end GraphqlArtifacts
