import GraphqlArtifacts.Proofs.Artifacts.Clashes
import GraphqlArtifacts.Proofs.Text.Order
import GraphqlArtifacts.Proofs.Validation.Known

namespace GraphqlArtifacts

open Graphql (Document Definition Operation Fragment Reaches fragment? reachedFragments)
open Validation (faults)

variable {settings : WriterSettings} {s s' : Schema} {d d' : Document} {definition : Definition}
  {o : Operation} {f : Fragment} {e : Artifact.Entry} {name : String}

-- The types of valid operations and fragments can be told.
theorem Flow.exists_types {options : TypeOptions} (h : faults s d = []) (hm : definition ∈ d)
    (hn : definition.name? = some name) : ∃ text, types s options definition = .ok text := by
  obtain ⟨o, rfl, ho⟩ | ⟨f, rfl, _⟩ := Definition.name?_eq_some hn
  case inl =>
    have hmembers : ∀ v ∈ o.variableDefinitions, ∃ member, variableMember s options v = .ok member :=
      fun v hv => ⟨_, if_pos <| Validation.resolves_variable h hm hv⟩
    obtain ⟨members, hl⟩ := exists_mapM_ok hmembers
    simp only [types, ho, operationTypes, hl]
    exact ⟨_, rfl⟩
  case inr => exact ⟨_, rfl⟩

namespace Artifact

theorem operationText_congr
    (h : ∀ f, f ∈ reachedFragments d o.selections ↔ f ∈ reachedFragments d' o.selections) :
    operationText d o = operationText d' o := by
  have hk := @Graphql.nodup_reachedFragments d o.selections
  have hk' := @Graphql.nodup_reachedFragments d' o.selections
  have hp := (List.perm_ext_iff_of_nodup (List.Nodup.of_map _ hk) (List.Nodup.of_map _ hk')).mpr h
  have hs := textBefore_isOrder.mergeSort_congr hk hp
  simp only [operationText, inOrder, hs]

-- Documents in which a definition reaches the same fragments give it the same entry.
theorem exists_entry (hname : definition.name? = some name)
    (h : ∀ f, f ∈ reachedFragments d definition.selections ↔
      f ∈ reachedFragments d' definition.selections) :
    ∃ e, entry? d definition = .ok (some e) ∧ entry? d' definition = .ok (some e) ∧
      e.name = name := by
  obtain ⟨o, rfl, ho⟩ | ⟨f, rfl, rfl⟩ := Definition.name?_eq_some hname
  case inl => simp [ entry?, ho, operationText_congr h]
  case inr => exact ⟨_, rfl, rfl, rfl⟩

-- The text of the module of a definition with an entry.
def moduleText (settings : WriterSettings) (s : Schema) (definition : Definition) (e : Entry) :
    Except PluginFailure String := do
  let types ← settings.plugin.generateTypes s settings.types definition
  settings.plugin.formatModule {
    moduleName := e.name ++ ".graphql"
    documentType := e.documentType
    typeText := types
    sourceHash := Md5.digest (Utf8.encode e.text)
    node := e.node }

theorem render?_of_entry (h : entry? d definition = .ok (some e)) :
    render? settings s d definition = ((moduleText settings s definition e).mapError .plugin).map
      fun text => some (e.name, text) := by
  unfold render? moduleText
  rw [h]
  cases settings.plugin.generateTypes s settings.types definition
  case error => rfl
  case ok types =>
    simp only [bind, Except.bind, Except.mapError]
    split <;> simp_all [Except.map, pure, Except.pure]

theorem exists_moduleText (hp : settings.plugin = .javascript) (h : faults s d = [])
    (hm : definition ∈ d) (hn : definition.name? = some name) :
    ∃ text, moduleText settings s definition e = .ok text := by
  obtain ⟨types, ht⟩ := @Flow.exists_types _ _ _ _ settings.types h hm hn
  exact ⟨_, by simp [moduleText, hp, Plugin.javascript, ht, bind, Except.bind]; rfl⟩

end Artifact

namespace ArtifactWriter

variable {i i' : WriterInput}

theorem executables_eq (hx : ∀ d ∈ i.definitions, d.isExecutable) :
    i.executables = i.definitions :=
  List.filter_eq_self.mpr hx

-- Documents without definitions of types leave the schema as it is.
theorem validSchema_eq (hx : ∀ d ∈ i.definitions, d.isExecutable) (hv : i.validSchema = .ok s) :
    s = i.schema := by
  have hown : i.definitions.filter (fun d => !d.isExecutable) = [] := by simpa using hx
  obtain ⟨s', he, h⟩ := bind_ok.mp hv
  simp only [WriterInput.extendedSchema, hown, List.isEmpty_nil, if_true, Except.mapError,
    Except.ok.injEq] at he
  split at h <;> cases h
  exact he.symm

-- What is generated for a definition depends on the documents only through the fragments that it
-- reaches, if the documents are valid. With the types of this language it is generated.
theorem render?_local (hschema : i.schema = i'.schema)
    (hx : ∀ d ∈ i.definitions, d.isExecutable) (hx' : ∀ d ∈ i'.definitions, d.isExecutable)
    (hv : i.validSchema = .ok s) (hv' : i'.validSchema = .ok s')
    (hm : definition ∈ i.definitions) (hname : definition.name? = some name)
    (hagree : ∀ name f, Reaches i.definitions definition.selections name →
      fragment? i.definitions name = some f → .fragment f ∈ i'.definitions) :
    ∃ r : Except PluginFailure String,
      Artifact.render? settings s i.executables definition =
        (r.mapError .plugin).map (fun text => some (name, text)) ∧
      Artifact.render? settings s' i'.executables definition =
        (r.mapError .plugin).map (fun text => some (name, text)) ∧
      (settings.plugin = .javascript → ∃ text, r = .ok text) := by
  have hf := faults_of_validSchema hv
  have hf' := faults_of_validSchema hv'
  obtain rfl := validSchema_eq hx hv
  obtain rfl := validSchema_eq hx' hv'
  rw [executables_eq hx] at hf ⊢
  rw [executables_eq hx'] at hf' ⊢
  have hreached (f : Fragment) : f ∈ reachedFragments i.definitions definition.selections ↔
      f ∈ reachedFragments i'.definitions definition.selections :=
    (Validation.mem_reachedFragments_agrees hf hm hf' hagree).symm
  obtain ⟨e, he, he', rfl⟩ := Artifact.exists_entry hname hreached
  refine ⟨Artifact.moduleText settings i.schema definition e, Artifact.render?_of_entry he, ?_,
    fun hp => Artifact.exists_moduleText hp hf hm hname⟩
  rw [hschema]
  exact Artifact.render?_of_entry he'

-- A query and the fragment that it spreads, with others in files before it or between.
def pictureFragment : Definition :=
  .fragment ⟨"Picture", "User", [], [.field none "id" [] [] []]⟩

def otherFragment : Definition :=
  .fragment ⟨"Other", "User", [], [.field (some "key") "id" [] [] []]⟩

def pictureQuery : Definition :=
  .operation ⟨.query, some "Viewer", [], [], [.field none "viewer" [] [] [.spread "Picture" []]]⟩

def pictureInput : WriterInput :=
  ⟨viewerSchema, [⟨⟨"/", ["App.js"]⟩, [pictureFragment, pictureQuery]⟩], []⟩

def crowdedInput : WriterInput :=
  ⟨viewerSchema, [⟨⟨"/", ["App.js"]⟩, [pictureQuery]⟩, ⟨⟨"/", ["Other.js"]⟩, [otherFragment]⟩],
    [⟨⟨"/", ["Picture.graphql"]⟩, [pictureFragment]⟩]⟩

theorem render?_crowded : ∃ s s' text, pictureInput.validSchema = .ok s ∧
    crowdedInput.validSchema = .ok s' ∧
    Artifact.render? (plainSettings none) s pictureInput.executables pictureQuery =
      .ok (some ("Viewer", text)) ∧
    Artifact.render? (plainSettings none) s' crowdedInput.executables pictureQuery =
      .ok (some ("Viewer", text)) := by
  obtain ⟨s, hv⟩ := validSchema_of_isSome (i := pictureInput) (by decide +kernel)
  obtain ⟨s', hv'⟩ := validSchema_of_isSome (i := crowdedInput) (by decide +kernel)
  have hagree (name : String) (f : Fragment)
      (hr : Reaches pictureInput.definitions pictureQuery.selections name)
      (hf : fragment? pictureInput.definitions name = some f) :
      .fragment f ∈ crowdedInput.definitions := by
    have hm := Graphql.mem_reachedFragments_iff.mpr ⟨name, hr, hf⟩
    obtain rfl := List.mem_singleton.mp hm
    exact List.mem_cons_self ..
  obtain ⟨r, hr, hr', hok⟩ := @render?_local (plainSettings none) _ _ _ _ pictureInput crowdedInput rfl
    (by decide) (by decide) hv hv' (List.mem_cons_of_mem _ <| List.mem_cons_self ..) rfl hagree
  obtain ⟨text, rfl⟩ := hok rfl
  exact ⟨s, s', text, hv, hv', hr, hr'⟩

end ArtifactWriter

end GraphqlArtifacts
