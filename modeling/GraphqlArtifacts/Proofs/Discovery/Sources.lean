import Mathlib.Data.List.TakeWhile
import GraphqlArtifacts.Proofs.Artifacts.Clashes
import GraphqlArtifacts.Proofs.Discovery.Scan

namespace GraphqlArtifacts

open Search (pathText isHidden asksForHidden Bars)

-- A name with the mark that artifacts carry before their extension.
def CarriesMark (name : String) : Prop :=
  ".graphql.".toList <:+: name.toList

instance : DecidablePred CarriesMark :=
  fun name => inferInstanceAs (Decidable (_ <:+: name.toList))

variable {t : Tree} {base : Path} {place parts dirs : List String} {s : Search}
  {extensions includes excludes : List String} {name : String} {plugin : Plugin}
  {content : List UInt8}

namespace Glob

variable {text rest part : List Char}

-- Characters other than wildcards take themselves.
theorem wild_append_iff (hstar : '*' ∉ text) (hquestion : '?' ∉ text) :
    Wild (text ++ rest) part ↔ ∃ later, part = text ++ later ∧ Wild rest later := by
  induction text generalizing part
  case nil => simp
  case cons c text hi =>
    simp only [List.mem_cons, not_or] at hstar hquestion
    rw [List.cons_append, wild_cons]
    simp only [Spans, Ne.symm hstar.left, Ne.symm hquestion.left, if_false,
      hi hstar.right hquestion.right]
    constructor
    case mp =>
      rintro ⟨_, _, rfl, rfl, later, rfl, hw⟩
      exact ⟨later, rfl, hw⟩
    case mpr =>
      rintro ⟨later, rfl, hw⟩
      exact ⟨[c], text ++ later, rfl, rfl, later, rfl, hw⟩

theorem wild_around_iff (hstar : '*' ∉ text) (hquestion : '?' ∉ text) :
    Wild ('*' :: (text ++ ['*'])) part ↔ text <:+: part := by
  simp only [wild_cons, Spans, if_true, true_and, wild_append_iff hstar hquestion]
  constructor
  case mp =>
    rintro ⟨before, _, rfl, after, rfl, _⟩
    exact ⟨before, after, by simp⟩
  case mpr =>
    rintro ⟨before, after, rfl⟩
    exact ⟨before, text ++ after, by simp, after, rfl, after, [], by simp, rfl⟩

theorem fits_mark_iff (hp : '/' ∉ part) :
    Fits "*.graphql.*".toList part ↔ ".graphql.".toList <:+: part ∧ ¬ IsHidden part := by
  have hw : Wild "*.graphql.*".toList part ↔ ".graphql.".toList <:+: part :=
    @wild_around_iff ".graphql.".toList part (by decide) (by decide)
  rw [fits_iff_wild (by decide) (by decide) (by decide) (by decide) (by decide) hp, hw]
  simp

end Glob

namespace Search

theorem artifactPattern_segments : Glob.splitSlashes (Glob.dropDotSlash artifactPattern.toList) =
    [['*', '*'], "*.graphql.*".toList] := by
  decide

-- The pattern of artifacts goes through no hidden directory.
theorem matches_artifactPattern_iff (hp : AreNames (dirs ++ [name])) :
    Glob.Matches artifactPattern (pathText (dirs ++ [name])) ↔
      (∀ d ∈ dirs ++ [name], ¬ isHidden d) ∧ CarriesMark name := by
  have hslash : '/' ∉ name.toList := (hp name <| by simp).right
  have hne : ∀ part ∈ dirs.map String.toList, part ≠ [] := by
    simpa using fun directory hm => (hp directory <| List.mem_append_left _ hm).left
  rw [Glob.matches_iff_cuts (by decide), splitSlashes_pathText hp (by simp),
    artifactPattern_segments, List.map_append, List.map_singleton,
    Glob.cuts_globstar (by decide) (fun hf => ((Glob.fits_mark_iff hslash).mp hf).right) hne,
    Glob.cuts_last, Glob.fits_mark_iff hslash]
  simp only [isHidden_iff, CarriesMark, List.forall_mem_append, List.forall_mem_map,
    List.forall_mem_singleton]
  constructor
  case mp =>
    rintro ⟨⟨_, hd, hl⟩, hm, _⟩
    exact ⟨⟨hd, hl⟩, hm⟩
  case mpr =>
    rintro ⟨⟨hd, hl⟩, hm⟩
    exact ⟨⟨by simp, hd, hl⟩, hm, hl⟩

theorem not_matches_artifactPattern_slash (hp : AreNames parts) (hn : parts ≠ []) :
    ¬ Glob.Matches artifactPattern (pathText parts ++ "/") := by
  have hne : ∀ part ∈ parts.map String.toList, part ≠ [] := by
    simpa using fun directory hm => (hp directory hm).left
  have hmark : ¬ Glob.Fits "*.graphql.*".toList [] := by
    rw [Glob.fits_mark_iff (by simp)]
    simp
  rw [Glob.matches_iff_cuts (by decide), splitSlashes_pathText_slash hp hn,
    artifactPattern_segments, Glob.cuts_globstar (by decide) (fun hf => absurd hf hmark) hne]
  exact fun ⟨_, hf⟩ => hmark hf

-- The names up to the first hidden one decide.
theorem bars_artifactPattern_iff (hp : AreNames parts) :
    Bars artifactPattern parts ↔ ∃ d ∈ parts.takeWhile (!isHidden ·), CarriesMark d := by
  constructor
  case mp =>
    rintro ⟨n, hpos, hle, hm | ⟨hlt, hm⟩⟩
    all_goals
      have hnames : AreNames (parts.take n) := fun name hname => hp name <| List.take_subset _ _ hname
      have hne : parts.take n ≠ [] := by
        rw [← List.length_pos_iff, List.length_take]
        omega
    case inr => exact absurd hm <| not_matches_artifactPattern_slash hnames hne
    case inl =>
      obtain ⟨dirs, name, htake⟩ := (parts.take n).eq_nil_or_concat'.resolve_left hne
      rw [htake] at hm hnames
      have ⟨hh, hmark⟩ := (matches_artifactPattern_iff hnames).mp hm
      refine ⟨name, ?_, hmark⟩
      rw [← List.take_append_drop n parts, htake,
        List.takeWhile_append_of_pos fun d hd => by simpa using hh d hd]
      simp
  case mpr =>
    rintro ⟨name, hname, hmark⟩
    obtain ⟨before, after, hsplit⟩ := List.append_of_mem hname
    have hparts : parts = (before ++ [name]) ++ (after ++ parts.dropWhile (!isHidden ·)) := by
      rw [← List.append_assoc, List.append_assoc before, List.singleton_append, ← hsplit,
        List.takeWhile_append_dropWhile]
    have htake : parts.take (before.length + 1) = before ++ [name] := by
      rw [hparts, List.take_left' (by simp)]
    have hle : before.length + 1 ≤ parts.length := by
      rw [hparts]
      simp
    have hnames : AreNames (before ++ [name]) := fun d hd => hp d <| by
      rw [hparts]
      exact List.mem_append_left _ hd
    refine ⟨before.length + 1, by omega, hle, .inl ?_⟩
    rw [htake, matches_artifactPattern_iff hnames]
    refine ⟨fun d hd => ?_, hmark⟩
    have hm : d ∈ parts.takeWhile (!isHidden ·) := by
      rw [hsplit]
      simp only [List.mem_append, List.mem_cons, List.not_mem_nil, or_false] at hd ⊢
      exact hd.imp_right .inl
    simpa using List.mem_takeWhile_imp hm

theorem sources_eq_leavingOut : sources extensions includes excludes =
    (⟨extensions, includes, excludes⟩ : Search).leavingOut artifactPattern :=
  rfl

-- A hidden directory above what a scan comes to is asked for.
theorem Reaches.asked (h : s.Reaches (dirs ++ [name])) (hh : ∃ d ∈ dirs, isHidden d) :
    s.filePatterns.any asksForHidden := by
  obtain ⟨d, hd, hidden⟩ := hh
  obtain ⟨before, after, rfl⟩ := List.append_of_mem hd
  refine (h (before.length + 1) (by omega) (by simp)).asked ?_
  simpa [List.take_append] using hidden

end Search

theorem carriesMark_artifact : CarriesMark (name ++ Artifact.suffix plugin) :=
  ⟨name.toList, plugin.outputExtension.toList, by
    rw [ArtifactWriter.fileName_toList, List.append_assoc]⟩

theorem Graphql.IsName.not_isHidden (h : IsName name) :
    ¬ isHidden (name ++ Artifact.suffix plugin) := by
  obtain ⟨c, rest, hn, hc, _⟩ := h
  rw [Search.isHidden_iff, ArtifactWriter.fileName_toList, hn, Glob.IsHidden, List.cons_append,
    List.head?_cons, Option.some_inj]
  rintro rfl
  exact absurd hc <| by decide

-- An artifact is left out unless a hidden directory comes before all marks.
theorem bars_artifact_iff (hp : AreNames (dirs ++ [name ++ Artifact.suffix plugin]))
    (hname : Graphql.IsName name) :
    Bars Search.artifactPattern (dirs ++ [name ++ Artifact.suffix plugin]) ↔
      ((∃ d ∈ dirs, isHidden d) → ∃ d ∈ dirs.takeWhile (!isHidden ·), CarriesMark d) := by
  rw [Search.bars_artifactPattern_iff hp]
  by_cases hh : ∃ d ∈ dirs, isHidden d
  case pos =>
    have hlen : (dirs.takeWhile (!isHidden ·)).length ≠ dirs.length := by
      intro hl
      have hall := List.takeWhile_eq_self_iff.mp <| (List.takeWhile_prefix _).eq_of_length hl
      obtain ⟨d, hd, hidden⟩ := hh
      simpa [hidden] using hall d hd
    rw [List.takeWhile_append, if_neg hlen, forall_prop_of_true hh]
  case neg =>
    have hvisible : ∀ d ∈ dirs, !isHidden d := by simpa using hh
    rw [List.takeWhile_append_of_pos hvisible]
    refine iff_of_true ⟨name ++ Artifact.suffix plugin, ?_, carriesMark_artifact⟩ (absurd · hh)
    simp [hname.not_isHidden]

-- An artifact is found exactly if it is found without regard to what artifacts are called, and lies
-- in a hidden directory with no mark in the names above. Without an include that spells out a hidden
-- directory none is found.
theorem artifact_found_iff (ht : t.WellFormed) (hn : t.IsNamed)
    (h : (⟨extensions, includes, excludes⟩ : Search).IsScannable)
    (hw : t.walk [] base.parts = .ok place) (hd : t.get? place = some .directory)
    (hname : Graphql.IsName name)
    (hg : t.get? (place ++ (dirs ++ [name ++ Artifact.suffix plugin])) = some (.file content)) :
    ∃ files, findFiles t base (.sources extensions includes excludes) false = .ok files ∧
      (pathText (dirs ++ [name ++ Artifact.suffix plugin]) ∈ files ↔
        (⟨extensions, includes, excludes⟩ : Search).Finds (dirs ++ [name ++ Artifact.suffix plugin]) ∧
          (∃ d ∈ dirs, isHidden d) ∧ ∀ d ∈ dirs.takeWhile (!isHidden ·), ¬ CarriesMark d) ∧
      ((∀ pattern ∈ (⟨extensions, includes, excludes⟩ : Search).filePatterns,
          ¬ asksForHidden pattern) →
        pathText (dirs ++ [name ++ Artifact.suffix plugin]) ∉ files) := by
  rw [Search.sources_eq_leavingOut]
  have ⟨hp, hne⟩ := Tree.areNames_of_file ht hn hd hg
  have hc : Glob.Compiles Search.artifactPattern := Glob.compiles_of_not_mem (by decide)
  have ⟨files, hf, hm⟩ := mem_scanned_leavingOut ht hn h hw hd hp hne hc
  have hiff : pathText (dirs ++ [name ++ Artifact.suffix plugin]) ∈ files ↔
      (⟨extensions, includes, excludes⟩ : Search).Finds (dirs ++ [name ++ Artifact.suffix plugin]) ∧
        (∃ d ∈ dirs, isHidden d) ∧ ∀ d ∈ dirs.takeWhile (!isHidden ·), ¬ CarriesMark d := by
    rw [hm, and_iff_right ⟨content, hg⟩, bars_artifact_iff hp hname]
    simp only [Classical.not_imp, not_exists, not_and]
  refine ⟨files, hf, hiff, fun hasked hmem => ?_⟩
  have ⟨hfinds, hhidden, _⟩ := hiff.mp hmem
  obtain ⟨pattern, hp, hasks⟩ := List.any_eq_true.mp <| hfinds.reached.asked hhidden
  exact hasked pattern hp hasks

-- Artifacts of a file in sight and of one in a directory that an include spells out.
def storyTree : Tree :=
  ⟨[(["src"], .directory), (["src", "ui"], .directory),
    (["src", "ui", "__generated__"], .directory),
    (["src", "ui", "__generated__", "App.graphql.js"], .file []),
    (["src", ".storybook"], .directory),
    (["src", ".storybook", "__generated__"], .directory),
    (["src", ".storybook", "__generated__", "Story.graphql.js"], .file [])]⟩

theorem app_isName : Graphql.IsName "App" :=
  ⟨'A', ['p', 'p'], by decide, by decide, List.all_eq_true.mp <| by decide⟩

theorem artifact_found_app :
    ∃ files, findFiles storyTree ⟨"/", ["src"]⟩ (.sources ["js"] ["**"] []) false = .ok files ∧
      "ui/__generated__/App.graphql.js" ∉ files := by
  have ht : storyTree.WellFormed := .ofEntries (by decide) (by decide)
  have hn : storyTree.IsNamed := Tree.isNamed_iff.mpr <| by decide
  have h : (⟨["js"], ["**"], []⟩ : Search).IsScannable := Search.isScannable_of_noSets <| by decide
  have hw : storyTree.walk [] ["src"] = .ok ["src"] := by decide +kernel
  have ⟨files, hf, hiff, _⟩ := @artifact_found_iff _ ⟨"/", ["src"]⟩ _ ["ui", "__generated__"] _ _ _
    "App" .javascript [] ht hn h hw (by decide) app_isName (by decide +kernel)
  have hh : ¬ ∃ d ∈ ["ui", "__generated__"], isHidden d := by decide +kernel
  exact ⟨files, hf, fun hm => hh (hiff.mp hm).right.left⟩

-- The artifact of a story would be read as a source.
theorem story_artifact_found : (⟨["js"], [".storybook/**"], []⟩ : Search).IsScannable ∧
    Artifact.path (ArtifactWriter.plainSettings none) ⟨"/", ["src", ".storybook", "Story.js"]⟩
      "Story" = ⟨"/", ["src", ".storybook", "__generated__", "Story.graphql.js"]⟩ ∧
    findFiles storyTree ⟨"/", ["src"]⟩ (.sources ["js"] [".storybook/**"] []) false =
      .ok [".storybook/__generated__/Story.graphql.js"] :=
  ⟨Search.isScannable_of_noSets <| by decide, by decide +kernel, by decide +kernel⟩

end GraphqlArtifacts
