import GraphqlArtifacts.Documents.DocumentFile
import GraphqlArtifacts.Language.Javascript
import GraphqlArtifacts.Proofs.Except
import GraphqlArtifacts.Proofs.Text.CharClass

namespace GraphqlArtifacts

namespace Tag

variable {s : List Char} {text : String} {covered line : Nat} {afterWord : Bool}

theorem read?_of_not_infix (h : ¬ word <:+: s) : read? s = none := by
  have hw : ¬ word.isPrefixOf s := fun hw => h (List.isPrefixOf_iff_prefix.mp hw).isInfix
  simp [read?, hw]

-- No tag is found in a text without their word.
theorem findFrom_of_not_infix (h : ¬ word <:+: s) : findFrom covered afterWord line s = [] := by
  induction s generalizing covered afterWord line
  case nil         => simp [findFrom]
  case cons c s hi =>
    have hi {covered afterWord line} : findFrom covered afterWord line s = [] :=
      hi fun hs => h <| hs.trans (List.suffix_cons c s).isInfix
    cases covered <;> simp [findFrom, read?_of_not_infix h, hi]

theorem findAll_of_not_holdsText (h : ¬ holdsText word text.toList) : findAll text = [] :=
  findFrom_of_not_infix fun hs => h <| holdsText_iff.mpr hs

end Tag

namespace DocumentReader

variable {t : Tree} {base : Path} {file other text : String} {files : List String} {e : ReadError}
  {findTags : String → Except PluginFailure (List Tag)} {tags : List Tag} {fault : DocumentFault}

-- Texts without the word of tags have none.
def NeedsWord (findTags : String → Except PluginFailure (List Tag)) : Prop :=
  ∀ text : String, ¬ holdsText Tag.word text.toList → findTags text = .ok []

theorem javascript_needsWord : NeedsWord Plugin.javascript.findTags :=
  fun _ h => congrArg Except.ok <| Tag.findAll_of_not_holdsText h

theorem definitionsOfTags_ne_unreadable :
    definitionsOfTags file tags ≠ .error (.unreadable other e) := by
  induction tags
  case nil => nofun
  case cons tag tags hi =>
    intro h
    obtain h | ⟨_, _, h⟩ := bind_error.mp h
    case inl =>
      obtain ⟨_, _, h⟩ := mapError_error.mp h
      cases h
    case inr =>
      obtain h | ⟨_, _, h⟩ := bind_error.mp h
      case inl => exact hi h
      case inr => cases h

theorem definitions?_ne_unreadable :
    (sources findTags).definitions? file text ≠ .error (.unreadable other e) := by
  intro h
  obtain h | ⟨tags, _, h⟩ := bind_error.mp h
  case inl =>
    obtain ⟨_, _, h⟩ := mapError_error.mp h
    cases h
  case inr =>
    split at h
    case isTrue => cases h
    case isFalse =>
      obtain h | ⟨_, _, h⟩ := bind_error.mp h
      case inl => exact definitionsOfTags_ne_unreadable h
      case inr => cases h

theorem parseFile_unreadable_iff :
    (sources findTags).parseFile t base file = .error (.unreadable other e) ↔
      t.readText (base.join file) = .error e ∧ file = other := by
  constructor
  case mp =>
    intro h
    obtain h | ⟨text, _, h⟩ := bind_error.mp h
    case inl =>
      obtain ⟨_, hr, h⟩ := mapError_error.mp h
      cases h
      exact ⟨hr, rfl⟩
    case inr =>
      obtain h | ⟨_, _, h⟩ := bind_error.mp h
      case inl => exact absurd h definitions?_ne_unreadable
      case inr => cases h
  case mpr =>
    rintro ⟨hr, rfl⟩
    exact bind_error.mpr <| .inl <| mapError_error.mpr ⟨e, hr, rfl⟩

-- A file that does not mention tags holds no documents, unless it cannot be read.
theorem parseFile_of_not_mentionsTags (hf : NeedsWord findTags) (h : ¬ mentionsTags t base file) :
    (sources findTags).parseFile t base file = .ok none ∨
      ∃ e, (sources findTags).parseFile t base file = .error (.unreadable file e) := by
  unfold mentionsTags at h
  split at h
  case h_1 text hr =>
    refine .inl <| bind_ok.mpr ⟨text, mapError_ok.mpr hr, bind_ok.mpr ⟨none, ?_, rfl⟩⟩
    exact bind_ok.mpr ⟨[], mapError_ok.mpr <| hf text h, rfl⟩
  case h_2 e hr => exact .inr ⟨e, parseFile_unreadable_iff.mpr ⟨hr, rfl⟩⟩

-- Leaving out the files that do not mention tags changes the outcome of a parse exactly if it is
-- that a file cannot be read.
theorem parseAll_mentioning_iff (hf : NeedsWord findTags) :
    (sources findTags).parseAll t base (files.filter (mentionsTags t base)) =
      (sources findTags).parseAll t base files ↔
    ∀ file e, (sources findTags).parseAll t base files ≠ .error (.unreadable file e) := by
  let P (fault : DocumentFault) : Prop := ∃ file e, fault = .unreadable file e
  have hk : ∀ file, mentionsTags t base file → ∀ fault, P fault →
      (sources findTags).parseFile t base file ≠ .error fault := by
    rintro file hm _ ⟨other, e, rfl⟩ h
    simp [mentionsTags, (parseFile_unreadable_iff.mp h).left] at hm
  have hd : ∀ file, ¬ mentionsTags t base file →
      (sources findTags).parseFile t base file = .ok none ∨
        ∃ fault, P fault ∧ (sources findTags).parseFile t base file = .error fault := by
    intro file hm
    exact (parseFile_of_not_mentionsTags hf hm).imp_right fun ⟨e, h⟩ => ⟨_, ⟨file, e, rfl⟩, h⟩
  simp only [parseAll, filterMapM_filter_iff hk hd, P, forall_exists_index]
  exact ⟨fun h file e => h _ file e rfl, fun h _ file e he => he ▸ h file e⟩

-- Of files that can be read, those that mention tags give the same documents, or the same fault,
-- as all of them.
theorem parseAll_mentioning
    (h : ∀ file ∈ files, ∃ text, t.readText (base.join file) = .ok text) :
    (sources Plugin.javascript.findTags).parseAll t base (files.filter (mentionsTags t base)) =
      (sources Plugin.javascript.findTags).parseAll t base files := by
  refine (parseAll_mentioning_iff javascript_needsWord).mpr fun other e he => ?_
  have ⟨file, hm, hf⟩ := mem_of_filterMapM_error he
  have ⟨text, ht⟩ := h file hm
  cases ht.symm.trans (parseFile_unreadable_iff.mp hf).left

-- Two sources mention tags, one of them without having any, and one source does not.
def mixedTree : Tree :=
  ⟨[(["App.js"], .file <| Utf8.encode "graphql\x60query App { id }\x60"),
    (["main.js"], .file <| Utf8.encode "start();\n"),
    (["README.js"], .file <| Utf8.encode "// about graphql\n")]⟩

theorem mixedTree_readable :
    ∀ file ∈ ["App.js", "main.js", "README.js"],
      ∃ text, mixedTree.readText ((⟨"/", []⟩ : Path).join file) = .ok text := by
  intro file hm
  have h : ∀ file ∈ ["App.js", "main.js", "README.js"],
      (mixedTree.readText ((⟨"/", []⟩ : Path).join file)).toOption.isSome := by
    decide +kernel
  exact (Option.isSome_iff_exists.mp <| h file hm).imp fun _ => ok_of_toOption

theorem parseAll_mixedTree :
    (∀ file ∈ ["App.js", "main.js", "README.js"],
      ∃ text, mixedTree.readText ((⟨"/", []⟩ : Path).join file) = .ok text) ∧
    ["App.js", "main.js", "README.js"].filter (mentionsTags mixedTree ⟨"/", []⟩) =
      ["App.js", "README.js"] ∧
    (sources Plugin.javascript.findTags).parseAll mixedTree ⟨"/", []⟩
        (["App.js", "main.js", "README.js"].filter (mentionsTags mixedTree ⟨"/", []⟩)) =
      (sources Plugin.javascript.findTags).parseAll mixedTree ⟨"/", []⟩
        ["App.js", "main.js", "README.js"] :=
  ⟨mixedTree_readable, by decide +kernel, parseAll_mentioning mixedTree_readable⟩

end DocumentReader

end GraphqlArtifacts
