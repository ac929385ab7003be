import GraphqlArtifacts.Proofs.Artifacts.Placement
import GraphqlArtifacts.Proofs.Validation.Unique

namespace GraphqlArtifacts

open Graphql (Document Definition Operation Fragment)

theorem Graphql.IsName.ne_empty {name : String} (h : IsName name) : name ≠ "" := by
  obtain ⟨c, rest, hn, _⟩ := h
  rintro rfl
  cases hn

theorem Graphql.IsName.ne_dot {name : String} (h : IsName name) : name ≠ "." := by
  obtain ⟨c, rest, hn, hc, _⟩ := h
  rintro rfl
  obtain rfl : '.' = c := (List.cons.inj hn).left
  exact absurd hc <| by decide

-- Only operations and fragments have names.
theorem Graphql.Definition.name?_eq_some {d : Definition} {name : String}
    (h : d.name? = some name) :
    (∃ o, d = .operation o ∧ o.name = some name) ∨ ∃ g, d = .fragment g ∧ g.name = name := by
  cases d
  case operation o => exact .inl ⟨o, rfl, h⟩
  case fragment g  => exact .inr ⟨g, rfl, Option.some.inj h⟩
  all_goals cases h

-- The path of an artifact tells its directory and its name.
theorem Artifact.path_inj {settings : WriterSettings} {p q : Path} {name name' : String}
    (hn : Graphql.IsName name) (hn' : Graphql.IsName name') :
    path settings p name = path settings q name' ↔
      directory settings p = directory settings q ∧ name = name' := by
  constructor
  case mp =>
    intro h
    obtain ⟨file, below, hf, hj⟩ := Path.exists_join_append <| suffix settings.plugin
    rw [path, path, hj _ _ hn.slash_not_mem hn.ne_empty hn.ne_dot,
      hj _ _ hn'.slash_not_mem hn'.ne_empty hn'.ne_dot, Path.mk.injEq] at h
    have ⟨hparts, hfile⟩ := List.append_inj' h.right rfl
    exact ⟨Path.eq_of_parts h.left hparts, hf (List.cons.inj hfile).left⟩
  case mpr =>
    rintro ⟨hd, rfl⟩
    rw [path, path, hd]

-- The definitions of the documents, with the paths of their files.
def WriterInput.sites (i : WriterInput) : List (Path × Definition) :=
  i.documents.flatMap fun f => f.document.map (f.path, ·)

namespace ArtifactWriter

variable {settings : WriterSettings} {i : WriterInput} {s : Schema} {f : DocumentFile}
  {p : Path} {d : Definition}

theorem mem_sites : (p, d) ∈ i.sites ↔ ∃ f ∈ i.documents, d ∈ f.document ∧ f.path = p := by
  simp [WriterInput.sites]

theorem artifactPaths_eq : i.artifactPaths settings =
    i.sites.filterMap fun site => site.2.name?.map (Artifact.path settings site.1) := by
  simp only [WriterInput.artifactPaths, WriterInput.sites, Artifact.paths, List.filterMap_flatMap,
    List.filterMap_map, List.map_filterMap, Function.comp_def]

theorem faults_of_validSchema (h : i.validSchema = .ok s) :
    Validation.faults s i.executables = [] := by
  obtain ⟨s', _, h⟩ := bind_ok.mp h
  split at h
  case h_1 hf =>
    cases h
    exact hf
  case h_2 => cases h

-- What is told apart among all operations and fragments is told apart among those of the documents.
theorem pairwise_sites {key : Definition → Option String}
    (hk : ∀ d, d.isExecutable = false → key d = none)
    (h : (i.executables.filterMap key).Nodup) :
    i.sites.Pairwise fun a b => ∀ n, key a.2 = some n → ∀ n', key b.2 = some n' → n ≠ n' := by
  have he : i.executables.filterMap key = i.definitions.filterMap key := by
    rw [WriterInput.executables, List.filterMap_filter]
    congr 1
    funext d
    cases hd : d.isExecutable
    case false => simp [hk d hd]
    case true  => simp
  have hs : i.sites.map Prod.snd = i.documents.flatMap (·.document) := by
    simp [WriterInput.sites, List.map_flatMap, Function.comp_def]
  rw [he, WriterInput.definitions, List.flatMap_append, List.filterMap_append, ← hs] at h
  have hd := List.pairwise_filterMap.mp (List.nodup_append.mp h).right.left
  rwa [List.pairwise_map] at hd

-- An operation and a fragment of one name whose artifacts go to one directory.
def HasClash (settings : WriterSettings) (i : WriterInput) : Prop :=
  ∃ f ∈ i.documents, ∃ f' ∈ i.documents, ∃ o g,
    .operation o ∈ f.document ∧ .fragment g ∈ f'.document ∧ o.name = some g.name ∧
      Artifact.directory settings f.path = Artifact.directory settings f'.path

-- Names are told apart within each kind of definition, so that only one of each kind can clash.
theorem nodup_artifactPaths (hn : ∀ f ∈ i.documents, ∀ d ∈ f.document, d.IsNamed)
    (hv : i.validSchema = .ok s) (hc : ¬ HasClash settings i) :
    (i.artifactPaths settings).Nodup := by
  have hf := faults_of_validSchema hv
  have hops := pairwise_sites (by rintro (_ | _) _ <;> trivial) <|
    Validation.nodup_operationNames hf
  have hfrags := pairwise_sites (by rintro (_ | _) _ <;> trivial) <|
    Validation.nodup_fragmentNames hf
  rw [artifactPaths_eq, List.nodup_iff_pairwise_ne, List.pairwise_filterMap]
  refine (hops.and hfrags).imp_of_mem ?_
  rintro ⟨p, d⟩ ⟨p', d'⟩ hm hm' ⟨hop, hfrag⟩ _ hq _ hq' he
  obtain ⟨name, hd, rfl⟩ := Option.map_eq_some_iff.mp hq
  obtain ⟨name', hd', rfl⟩ := Option.map_eq_some_iff.mp hq'
  obtain ⟨f, hf, hdf, rfl⟩ := mem_sites.mp hm
  obtain ⟨f', hf', hdf', rfl⟩ := mem_sites.mp hm'
  have ⟨hdir, hname⟩ :=
    (Artifact.path_inj (hn f hf d hdf _ hd) (hn f' hf' d' hdf' _ hd')).mp he
  obtain ⟨o, rfl, ho⟩ | ⟨g, rfl, hg⟩ := Graphql.Definition.name?_eq_some hd <;>
    obtain ⟨o', rfl, ho'⟩ | ⟨g', rfl, hg'⟩ := Graphql.Definition.name?_eq_some hd'
  · exact hop name ho name' ho' hname
  · exact hc ⟨f, hf, f', hf', o, g', hdf, hdf', by rw [ho, hname, hg'], hdir⟩
  · exact hc ⟨f', hf', f, hf, o', g, hdf', hdf, by rw [ho', ← hname, hg], hdir.symm⟩
  · exact hfrag name (congrArg some hg) name' (congrArg some hg') hname

-- Documents that are valid have an artifact path for each named operation and fragment, exactly if
-- no operation has the name of a fragment in the same directory.
theorem artifactPaths_nodup_iff (hn : ∀ f ∈ i.documents, ∀ d ∈ f.document, d.IsNamed)
    (hv : i.validSchema = .ok s) :
    (i.artifactPaths settings).Nodup ↔ ¬ HasClash settings i := by
  refine ⟨?_, nodup_artifactPaths hn hv⟩
  rintro hp ⟨f, hf, f', hf', o, g, ho, hg, hname, hd⟩
  rw [artifactPaths_eq] at hp
  have he := eq_of_nodup_filterMap hp (b := Artifact.path settings f.path g.name)
    (mem_sites.mpr ⟨f, hf, ho, rfl⟩) (mem_sites.mpr ⟨f', hf', hg, rfl⟩)
    (by simp [Definition.name?, hname]) (by simp [Definition.name?, Artifact.path, hd])
  have := (Prod.mk.inj he).right
  cases this

-- A query with the name of the fragment that it spreads.
def viewerSchema : Schema :=
  { Schema.empty with
    types := [⟨"Query", none, .object [] [⟨"viewer", [], .named "User"⟩]⟩,
      ⟨"User", none, .object [] [⟨"id", [], .named "ID"⟩]⟩, ⟨"ID", none, .scalar⟩]
  }.withRoot .query "Query"

def viewerQuery : Definition :=
  .operation ⟨.query, some "Viewer", [], [], [.field none "viewer" [] [] [.spread "Viewer" []]]⟩

def viewerFragment : Definition :=
  .fragment ⟨"Viewer", "User", [], [.field none "id" [] [] []]⟩

-- The fragment and the query in files of their own.
def apartInput : WriterInput :=
  ⟨viewerSchema, [⟨⟨"/", ["card", "Card.js"]⟩, [viewerFragment]⟩,
    ⟨⟨"/", ["App.js"]⟩, [viewerQuery]⟩], []⟩

-- The fragment and the query in one file.
def viewerInput : WriterInput :=
  ⟨viewerSchema, [⟨⟨"/", ["App.js"]⟩, [viewerFragment, viewerQuery]⟩], []⟩

def plainSettings (output : Option Path) : WriterSettings :=
  ⟨.javascript, ⟨[], false⟩, output⟩

theorem viewer_isName : Graphql.IsName "Viewer" :=
  ⟨'V', ['i', 'e', 'w', 'e', 'r'], by decide, by decide, List.all_eq_true.mp <| by decide⟩

theorem viewerQuery_isNamed : viewerQuery.IsNamed := by
  intro name hn
  cases hn
  exact viewer_isName

theorem viewerFragment_isNamed : viewerFragment.IsNamed := by
  intro name hn
  cases hn
  exact viewer_isName

theorem validSchema_of_isSome (h : i.validSchema.toOption.isSome) : ∃ s, i.validSchema = .ok s := by
  cases hv : i.validSchema
  case error => simp [hv, Except.toOption] at h
  case ok s  => exact ⟨s, rfl⟩

theorem appFile_below : Path.IsBelow ⟨"/", []⟩ ⟨"/", ["App.js"]⟩ := by
  refine ⟨"App.js", by decide +kernel, by decide +kernel, ?_⟩
  unfold Path.IsResolved
  decide +kernel

-- Files beside each other's directories keep the two artifacts apart, but an output directory does
-- not.
theorem clash_apart : ¬ HasClash (plainSettings none) apartInput ∧
    HasClash (plainSettings <| some ⟨"/", ["out"]⟩) apartInput := by
  obtain ⟨s, hv⟩ := validSchema_of_isSome (i := apartInput) (by decide +kernel)
  have hn : ∀ f ∈ apartInput.documents, ∀ d ∈ f.document, d.IsNamed := by
    simp [apartInput, viewerQuery_isNamed, viewerFragment_isNamed]
  constructor
  case left => exact (artifactPaths_nodup_iff hn hv).mp <| by decide +kernel
  case right =>
    by_contra hc
    have hp := (artifactPaths_nodup_iff hn hv).mpr hc
    exact absurd hp <| by decide +kernel

-- A valid document that loses one of its two artifacts.
theorem viewer_clash : (∃ s, viewerInput.validSchema = .ok s) ∧
    Placed (plainSettings none) ⟨"/", []⟩ viewerInput ∧
    ¬ (viewerInput.artifactPaths (plainSettings none)).Nodup := by
  refine ⟨validSchema_of_isSome <| by decide +kernel, ?_, by decide +kernel⟩
  constructor
  case base      => simp [Path.IsResolved]
  case output    => simp [plainSettings]
  case documents => simpa [viewerInput] using appFile_below
  case names     => simp [viewerInput, viewerQuery_isNamed, viewerFragment_isNamed]

end ArtifactWriter

end GraphqlArtifacts
