import GraphqlArtifacts.Documents.DocumentFile
import GraphqlArtifacts.Proofs.Except
import GraphqlArtifacts.Proofs.Graphql.Names

namespace GraphqlArtifacts

namespace DocumentReader

variable {reader : DocumentReader} {t : Tree} {base : Path} {file text : String} {f : DocumentFile}
  {files : List String} {documents : List DocumentFile} {tags : List Tag}
  {document : Graphql.Document}

theorem definitionsOfTags_named (h : definitionsOfTags file tags = .ok document) :
    ∀ d ∈ document, d.IsNamed := by
  induction tags generalizing document
  case nil =>
    cases h
    simp
  case cons tag tags hi =>
    obtain ⟨first, hf, h⟩ := bind_ok.mp h
    obtain ⟨later, hl, h⟩ := bind_ok.mp h
    cases h
    intro d hd
    cases List.mem_append.mp hd
    case inl hd => exact Graphql.parse_names (mapError_ok.mp hf) d hd
    case inr hd => exact hi hl d hd

theorem definitions?_named (h : reader.definitions? file text = .ok (some document)) :
    ∀ d ∈ document, d.IsNamed := by
  unfold definitions? at h
  cases reader
  case sources findTags =>
    obtain ⟨tags, _, h⟩ := bind_ok.mp h
    split at h
    case isTrue => cases h
    case isFalse =>
      obtain ⟨d, hd, h⟩ := bind_ok.mp h
      cases h
      exact definitionsOfTags_named hd
  case documents =>
    simp only at h
    split at h
    case isTrue => cases h
    case isFalse =>
      obtain ⟨d, hd, h⟩ := bind_ok.mp h
      cases h
      exact Graphql.parse_names <| mapError_ok.mp hd

-- Documents are given the path that their file is read from, and names of the syntax.
theorem parseFile_ok (h : reader.parseFile t base file = .ok (some f)) :
    f.path = base.join file ∧ ∀ d ∈ f.document, d.IsNamed := by
  obtain ⟨text, _, h⟩ := bind_ok.mp h
  obtain ⟨found, hd, h⟩ := bind_ok.mp h
  cases found <;> cases h
  exact ⟨rfl, definitions?_named hd⟩

theorem parseAll_ok (h : reader.parseAll t base files = .ok documents) (hf : f ∈ documents) :
    (∃ file ∈ files, f.path = base.join file) ∧ ∀ d ∈ f.document, d.IsNamed := by
  obtain ⟨file, hm, h⟩ := mem_of_filterMapM h hf
  exact ⟨⟨file, hm, (parseFile_ok h).left⟩, (parseFile_ok h).right⟩

end DocumentReader

end GraphqlArtifacts
