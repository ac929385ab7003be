import Mathlib.Data.List.Nodup
import GraphqlArtifacts.Language.Javascript
import GraphqlArtifacts.Proofs.Artifacts.Renderings
import GraphqlArtifacts.Proofs.Documents.Parsed
import GraphqlArtifacts.Proofs.Validation.Unique

namespace GraphqlArtifacts

namespace ArtifactWriter

variable {settings : WriterSettings} {source p d : Path} {i : WriterInput} {rs : List Rendering}
  {r : Rendering} {name : String} {f : DocumentFile}

-- Documents below a source directory, with names that the syntax of documents has.
structure Placed (settings : WriterSettings) (source : Path) (i : WriterInput) : Prop where
  base : source.IsResolved
  output : ∀ p ∈ settings.outputDirectory, p.IsResolved
  documents : ∀ f ∈ i.documents, source.IsBelow f.path
  names : ∀ f ∈ i.documents, ∀ d ∈ f.document, d.IsNamed

-- Documents that were parsed from files below a resolved directory are placed.
theorem Placed.ofParsed {reader : DocumentReader} {t : Tree} {files : List String}
    (hb : source.IsResolved) (ho : ∀ p ∈ settings.outputDirectory, p.IsResolved)
    (hf : ∀ file ∈ files, ¬ (Path.ofText file).isAbsolute ∧ (Path.ofText file).IsResolved)
    (h : reader.parseAll t source files = .ok i.documents) : Placed settings source i where
  base := hb
  output := ho
  documents f hm := by
    obtain ⟨⟨file, hfile, hp⟩, _⟩ := DocumentReader.parseAll_ok h hm
    exact ⟨file, hp, hf file hfile⟩
  names f hm := (DocumentReader.parseAll_ok h hm).right

-- All artifacts are under one root, if not in one directory.
def root (settings : WriterSettings) (source : Path) : String :=
  (settings.outputDirectory.getD source).root

namespace Placed

theorem directory_resolved (hi : Placed settings source i) (hf : f ∈ i.documents) :
    (Artifact.directory settings f.path).IsResolved := by
  unfold Artifact.directory
  cases ho : settings.outputDirectory
  case some => exact hi.output _ ho
  case none =>
    have hp := (hi.documents f hf).isResolved hi.base
    exact hp.parent.child (by decide)

theorem directory_root (hi : Placed settings source i) (hf : f ∈ i.documents) :
    (Artifact.directory settings f.path).root = root settings source := by
  unfold Artifact.directory root
  cases settings.outputDirectory
  case some => rfl
  case none => exact (hi.documents f hf).root_eq

end Placed

theorem mem_directories : d ∈ directories settings i.documents ↔
    d ∈ settings.outputDirectory ∨ ∃ f ∈ i.documents, Artifact.directory settings f.path = d := by
  simp [directories, List.mem_eraseDups]

theorem nodup_directories : (directories settings i.documents).Nodup :=
  (List.mergeSort_perm ..).nodup_iff.mpr <| nodup_eraseDups _

section

variable {plugin : Plugin}

theorem fileName_toList : (name ++ Artifact.suffix plugin).toList =
    name.toList ++ (".graphql.".toList ++ plugin.outputExtension.toList) := by
  rw [Artifact.suffix, String.toList_append, String.toList_append]

theorem fileName_ne {short : String} (hs : short.length < 9) :
    name ++ Artifact.suffix plugin ≠ short := by
  rintro rfl
  rw [← String.length_toList, fileName_toList, List.length_append, List.length_append,
    String.length_toList (s := ".graphql.")] at hs
  have : ".graphql.".length = 9 := by decide
  omega

theorem slash_not_mem_fileName (hn : Graphql.IsName name)
    (hx : '/' ∉ plugin.outputExtension.toList) :
    '/' ∉ (name ++ Artifact.suffix plugin).toList := by
  have hs : '/' ∉ ".graphql.".toList := by decide
  rw [fileName_toList, List.mem_append, List.mem_append, not_or, not_or]
  exact ⟨hn.slash_not_mem, hs, hx⟩

end

-- An artifact lies directly in its directory.
theorem path_eq_child (hx : '/' ∉ settings.plugin.outputExtension.toList)
    (hn : Graphql.IsName name) : Artifact.path settings p name =
      (Artifact.directory settings p).child (name ++ Artifact.suffix settings.plugin) :=
  Path.join_of_not_mem (slash_not_mem_fileName hn hx) (fileName_ne (by decide))
    (fileName_ne (by decide))

theorem Placed.artifactPath (hi : Placed settings source i)
    (hx : '/' ∉ settings.plugin.outputExtension.toList) (hm : p ∈ i.artifactPaths settings) :
    p.IsResolved ∧ p.root = root settings source := by
  simp only [WriterInput.artifactPaths, Artifact.paths, List.mem_flatMap, List.mem_map,
    List.mem_filterMap] at hm
  obtain ⟨f, hf, name, ⟨d, hd, hn⟩, rfl⟩ := hm
  rw [path_eq_child hx <| hi.names f hf d hd name hn]
  exact ⟨(hi.directory_resolved hf).child <| fileName_ne (by decide), hi.directory_root hf⟩

theorem Placed.rendering (hi : Placed settings source i) (hp : settings.plugin = .javascript)
    (h : i.renderings settings = .ok rs) (hr : r ∈ rs) :
    r.path.IsResolved ∧ r.path.root = root settings source := by
  have hx : '/' ∉ settings.plugin.outputExtension.toList := by
    rw [hp]
    decide
  exact hi.artifactPath hx <| renderings_paths h ▸ List.mem_map_of_mem hr

-- Renderings with different paths lead to different places.
theorem Placed.pairwise_parts (hi : Placed settings source i) (hp : settings.plugin = .javascript)
    (hn : (i.artifactPaths settings).Nodup) (h : i.renderings settings = .ok rs) :
    rs.Pairwise fun r r' => r.path.parts ≠ r'.path.parts := by
  have hroot : ∀ r ∈ rs, r.path.root = root settings source := fun r hm =>
    (hi.rendering hp h hm).right
  rw [← renderings_paths h] at hn
  have hparts := Path.pairwise_parts (List.forall_mem_map.mpr hroot) hn
  rwa [List.pairwise_map] at hparts

theorem Placed.directories (hi : Placed settings source i)
    (hd : d ∈ directories settings i.documents) : d.IsResolved ∧ d.root = root settings source := by
  obtain ho | ⟨f, hf, rfl⟩ := mem_directories.mp hd
  · exact ⟨hi.output d ho, by simp_all [root]⟩
  · exact ⟨hi.directory_resolved hf, hi.directory_root hf⟩

end ArtifactWriter

end GraphqlArtifacts
