import GraphqlArtifacts.Proofs.Engine.Polls
import GraphqlArtifacts.Proofs.Except
import GraphqlArtifacts.Proofs.Files.Path
import GraphqlArtifacts.Run.Basic

namespace GraphqlArtifacts

section

variable {t : Tree} {s : Settings} {directory path : Path} {value : Data}
  {missing : Path → ConfigurationError} {paths : RunPaths}

theorem existingPath_ok (h : existingPath t directory value missing = .ok path) :
    ∃ text, Settings.pathText value = .ok text ∧ path = (directory.join text).normalize := by
  have ⟨text, ht, h⟩ := bind_ok.mp h
  have ⟨there, _, h⟩ := bind_ok.mp h
  cases there <;> cases h
  exact ⟨text, mapError_ok.mp ht, rfl⟩

theorem validate_source (h : validate t s directory = .ok paths) :
    ∃ text, Settings.pathText (s .source) = .ok text ∧
      paths.source = (directory.join text).normalize := by
  have ⟨_, h⟩ := guard_ok.mp h
  have ⟨_, h⟩ := guard_ok.mp h
  have ⟨schema, _, h⟩ := bind_ok.mp h
  have ⟨source, hs, h⟩ := bind_ok.mp h
  have ⟨_, h⟩ := guard_ok.mp h
  have h := check_ok h
  have ⟨_, h⟩ := guard_ok.mp h
  cases h
  exact existingPath_ok hs

theorem validate_resolved (h : validate t s directory = .ok paths) : paths.source.IsResolved := by
  have ⟨text, _, h⟩ := validate_source h
  exact h ▸ Path.isResolved_normalize _

end

namespace Run

variable {σ α β : Type} {w : World σ} {i : RunInput} {s s' : EngineState σ} {p : Plan}
  {hasService onlyMentioning : Bool} {settings : Settings} {source : Path} {search : Search}
  {reader : DocumentReader} {schema : Schema} {set : FileSet} {r : Except RunFault α} {a : α}
  {f : α → Run σ β} {c : β}

theorem exec_ofStep_ok : exec (ofStep r) s = (.ok a, s') ↔ r = .ok a ∧ s' = s := by
  rw [ofStep, exec_step, Prod.mk.injEq, eq_comm (a := s)]

theorem exec_ofStep_bind_ok : exec (ofStep r >>= f) s = (.ok c, s') ↔
    ∃ a, r = .ok a ∧ exec (f a) s = (.ok c, s') := by
  rw [exec_bind_ok]
  simp [exec_ofStep_ok]

theorem exec_tree (s : EngineState σ) : exec (tree : Run σ Tree) s = (.ok s.scene.tree, s) :=
  rfl

-- A set names files if they are looked for when it is planned.
theorem exec_fileSet_bind_ok {f : FileSet → Run σ β}
    (h : exec (fileSet hasService settings source search reader onlyMentioning schema >>= f) s =
      (.ok c, s')) : ∃ set, (set.base = source ∧ set.reader = reader ∧ ∀ files ∈ set.files,
        findFiles s.scene.tree source search (settings.isOn .respectIgnoreFiles) = .ok files) ∧
      exec (f set) s = (.ok c, s') := by
  have ⟨set, s₁, hs, h⟩ := exec_bind_ok.mp h
  have ⟨files, s₂, hl, hs⟩ := exec_bind_ok.mp hs
  cases hs
  unfold listed at hl
  split at hl
  case isTrue =>
    cases hl
    exact ⟨_, ⟨rfl, rfl, by simp⟩, h⟩
  case isFalse =>
    dsimp only at hl
    rw [exec_bind_of_ok (exec_tree s), ← bind_pure_comp] at hl
    have ⟨found, hf, hl⟩ := exec_ofStep_bind_ok.mp hl
    cases hl
    exact ⟨_, ⟨rfl, rfl, by simpa using mapError_ok.mp hf⟩, h⟩

theorem usable_ok {candidate : PluginCandidate} {plugin : Plugin}
    (h : usable settings candidate = .ok plugin) : candidate = .plugin plugin := by
  cases candidate
  case plugin =>
    cases h
    rfl
  case other =>
    dsimp only [usable] at h
    split at h
    · cases h
    · split at h <;> cases h

-- What a plan is made of. Others act only while it is asked whether there is a service.
structure Makes (w : World σ) (i : RunInput) (s s' : EngineState σ) (paths : RunPaths)
    (plugin : Plugin) (p : Plan) : Prop where
  validated : validate s.scene.tree i.settings i.directory = .ok paths
  service : exec (asksService w i) s = (.ok p.hasService, s')
  language : ∃ language, i.settings.language = .ok language ∧
    (i.languages.resolve i.modules s'.scene.tree i.directory language).1 = .ok (.plugin plugin)
  check : p.check = .ok ()
  onlyValidate : p.onlyValidate = i.settings.isOn .validate
  nodup : (p.fileSets.map Prod.fst).Nodup
  fileSets : ∀ {name set}, (name, set) ∈ p.fileSets → set.base = paths.source ∧
    (set.reader = .sources plugin.findTags ∨ set.reader = .documents) ∧
    ∀ files ∈ set.files, ∃ search, findFiles s'.scene.tree paths.source search
      (i.settings.isOn .respectIgnoreFiles) = .ok files
  outputs : ∃ name o, p.outputs = [(name, o)] ∧ o.writer.plugin = plugin ∧
    ∃ text, i.settings.artifactDirectory? = .ok text ∧
      o.writer.outputDirectory = text.map fun text => (i.directory.join text).normalize
  generated : ∀ {name o}, (name, o) ∈ p.outputs → o.isGenerated =
    isGenerated (Artifact.suffix plugin)
      ((o.writer.outputDirectory.map Path.text).getD Artifact.directoryName)

theorem plan_made (h : exec (plan w i) s = (.ok p, s')) : ∃ paths plugin,
    Makes w i s s' paths plugin p := by
  rw [plan, exec_bind_of_ok (exec_tree s)] at h
  have ⟨paths, hpaths, h⟩ := exec_ofStep_bind_ok.mp h
  have ⟨hasService, s₁, ha, h⟩ := exec_bind_ok.mp h
  rw [exec_bind_of_ok (exec_tree s₁)] at h
  have ⟨schema, _, h⟩ := exec_ofStep_bind_ok.mp h
  have ⟨language, hl, h⟩ := exec_ofStep_bind_ok.mp h
  rw [exec_bind_of_ok (exec_tree s₁)] at h
  have ⟨candidate, hcandidate, h⟩ := exec_ofStep_bind_ok.mp h
  have ⟨plugin, hplugin, h⟩ := exec_ofStep_bind_ok.mp h
  have ⟨extensions, _, h⟩ := exec_ofStep_bind_ok.mp h
  have ⟨text, htext, h⟩ := exec_ofStep_bind_ok.mp h
  have ⟨includes, _, h⟩ := exec_ofStep_bind_ok.mp h
  have ⟨excludes, _, h⟩ := exec_ofStep_bind_ok.mp h
  have ⟨sources, hs, h⟩ := exec_fileSet_bind_ok h
  have ⟨documents, hd, h⟩ := exec_fileSet_bind_ok h
  have ⟨scalars, _, h⟩ := exec_ofStep_bind_ok.mp h
  have ⟨_, s₂, hi, h⟩ := exec_bind_ok.mp h
  have ⟨_, hc, h⟩ := exec_ofStep_bind_ok.mp h
  rw [exec_discard, Prod.mk.injEq] at hi
  obtain ⟨_, rfl : s₁ = s₂⟩ := hi
  cases h
  refine ⟨paths, plugin, ?_⟩
  constructor
  case validated => exact mapError_ok.mp hpaths
  case service => exact ha
  case language =>
    exact ⟨language, mapError_ok.mp hl, usable_ok hplugin ▸ mapError_ok.mp hcandidate⟩
  case check => exact mapError_ok.mp hc
  case onlyValidate => rfl
  case nodup => exact Data.nodup_insert (by simp)
  case fileSets =>
    intro name set hm
    obtain ⟨rfl, rfl⟩ | hm := Data.mem_insert hm
    · exact ⟨hd.left, .inr hd.right.left, fun files hf => ⟨_, hd.right.right files hf⟩⟩
    · obtain ⟨rfl, rfl⟩ : name = _ ∧ set = sources := by simpa using hm
      exact ⟨hs.left, .inl hs.right.left, fun files hf => ⟨_, hs.right.right files hf⟩⟩
  case outputs => exact ⟨_, _, rfl, rfl, text, mapError_ok.mp htext, rfl⟩
  case generated =>
    intro name o hm
    obtain ⟨rfl, rfl⟩ := Prod.mk.inj <| List.mem_singleton.mp hm
    rfl

-- What a run compiles is accepted, from a resolved directory and into one if that is set.
theorem plan_ok (h : exec (plan w i) s = (.ok p, s')) : p.Accepted ∧
    (∀ {name set}, (name, set) ∈ p.fileSets → set.base.IsResolved) ∧
    ∀ {name o}, (name, o) ∈ p.outputs → ∀ d ∈ o.writer.outputDirectory, d.IsResolved := by
  have ⟨paths, plugin, hp⟩ := plan_made h
  have ⟨out, o, ho, _, text, _, hd⟩ := hp.outputs
  refine ⟨⟨hp.check, hp.nodup, by simp [ho]⟩, fun hm => ?_, fun hm d hmem => ?_⟩
  case refine_1 => exact (hp.fileSets hm).left ▸ validate_resolved hp.validated
  case refine_2 =>
    obtain ⟨rfl, rfl⟩ : _ = out ∧ _ = o := by simpa [ho] using hm
    rw [hd] at hmem
    obtain ⟨text, _, rfl⟩ := Option.map_eq_some_iff.mp hmem
    exact Path.isResolved_normalize _

end Run

end GraphqlArtifacts
