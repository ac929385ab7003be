import GraphqlArtifacts.Proofs.Discovery.Modes

namespace GraphqlArtifacts

open FileTerm (HasExtension)
open Glob (IsPlain Matches)
open Search (pathText isHidden)

variable {t : Tree} {base : Path} {place parts extensions : List String}

-- The set of all files with some extensions.
def Search.everywhere (extensions : List String) : Search :=
  ⟨extensions, ["**"], []⟩

namespace Search

-- A globstar alone matches the paths without hidden names.
theorem matches_globstar_iff (hp : AreNames parts) (hn : parts ≠ []) :
    Matches "**" (pathText parts) ↔ ∀ name ∈ parts, ¬ isHidden name := by
  have hsegments : Glob.splitSlashes (Glob.dropDotSlash "**".toList) = [['*', '*']] := by decide
  rw [Glob.matches_iff_cuts (by decide), hsegments, splitSlashes_pathText hp hn, Glob.cuts_last]
  simp [hn, isHidden_iff]

section

variable (hsome : extensions ≠ []) (hplain : ∀ extension ∈ extensions, IsPlain extension.toList)

include hplain

theorem isScannable_everywhere : (everywhere extensions).IsScannable := by
  apply isScannable_of_noSets
  simp only [everywhere, List.forall_mem_append, List.forall_mem_singleton, List.append_nil]
  exact ⟨fun extension hm => (hplain extension hm).not_mem (by decide), by decide⟩

include hsome

theorem isDeep_everywhere : (everywhere extensions).IsDeep where
  some := hsome
  plain := hplain
  noSets := by simp [everywhere]
  globstar := by simpa [everywhere] using by decide

theorem finds_everywhere_iff (hp : AreNames parts) (hn : parts ≠ []) :
    (everywhere extensions).Finds parts ↔
      (∀ name ∈ parts, ¬ isHidden name) ∧ (everywhere extensions).RepeatsExtension parts := by
  have hmatch : (∃ pattern ∈ (everywhere extensions).includes, Matches pattern (pathText parts)) ↔
      ∀ name ∈ parts, ¬ isHidden name := by
    simpa [everywhere] using matches_globstar_iff hp hn
  rw [finds_iff, filePatterns_match_iff (isDeep_everywhere hsome hplain) hp hn, hmatch,
    reaches_iff_of_noExcludes rfl]
  constructor
  case mp  => exact fun ⟨_, _, hh, hr⟩ => ⟨hh, hr⟩
  case mpr =>
    refine fun ⟨hh, hr⟩ => ⟨?_, by simp [everywhere], hh, hr⟩
    rintro ⟨name, hm, hidden⟩
    exact absurd hidden <| hh name <| List.dropLast_subset _ hm

end

end Search

-- Of the visible files, those are found that end in a dot and one or more of the extensions, one
-- after the other. So these are the files with one of the extensions exactly if no visible file
-- ends in several of them that do not amount to one.
theorem findFiles_everywhere (ht : t.WellFormed) (hn : t.IsNamed) (hsome : extensions ≠ [])
    (hplain : ∀ extension ∈ extensions, IsPlain extension.toList)
    (hw : t.walk [] base.parts = .ok place) (hd : t.get? place = some .directory) :
    ∃ files, findFiles t base (.everywhere extensions) false = .ok files ∧
      (∀ path, path ∈ files ↔ ∃ parts content, t.get? (place ++ parts) = some (.file content) ∧
        (∀ name ∈ parts, ¬ isHidden name) ∧ (Search.everywhere extensions).RepeatsExtension parts ∧
          pathText parts = path) ∧
      ((∀ parts content, t.get? (place ++ parts) = some (.file content) →
          (pathText parts ∈ files ↔ (∀ name ∈ parts, ¬ isHidden name) ∧
            ∃ extension ∈ extensions, HasExtension parts extension)) ↔
        ∀ parts content, t.get? (place ++ parts) = some (.file content) →
          (∀ name ∈ parts, ¬ isHidden name) →
            (Search.everywhere extensions).RepeatsExtension parts →
              ∃ extension ∈ extensions, HasExtension parts extension) := by
  have h := Search.isScannable_everywhere hplain
  have ⟨files, hf, _, _, hmem⟩ := findFiles_scanned ht hn h hw hd
  have hfinds {parts content} (hg : t.get? (place ++ parts) = some (.file content)) :
      (Search.everywhere extensions).Finds parts ↔ (∀ name ∈ parts, ¬ isHidden name) ∧
        (Search.everywhere extensions).RepeatsExtension parts := by
    have ⟨hp, hne⟩ := Tree.areNames_of_file ht hn hd hg
    exact Search.finds_everywhere_iff hsome hplain hp hne
  have hfound {parts content} (hg : t.get? (place ++ parts) = some (.file content)) :
      pathText parts ∈ files ↔ (Search.everywhere extensions).Finds parts := by
    have ⟨hp, hne⟩ := Tree.areNames_of_file ht hn hd hg
    have ⟨files', hf', hm⟩ := mem_scanned ht hn h hw hd hp hne
    obtain rfl := Except.ok.inj <| hf.symm.trans hf'
    rw [hm, and_iff_right ⟨content, hg⟩]
  refine ⟨files, hf, fun path => (hmem path).trans ?_, ?_⟩
  case refine_1 =>
    refine exists₂_congr fun parts content => and_congr_right fun hg => ?_
    rw [hfinds hg, and_assoc]
  case refine_2 =>
    refine forall₃_congr fun parts content hg => ?_
    rw [hfound hg, hfinds hg, and_congr_right_iff]
    refine forall_congr' fun _ => iff_iff_implies_and_implies.trans <| and_iff_left ?_
    exact fun ⟨_, hm, hext⟩ => Search.repeatsExtension_of_hasExtension hm hext

-- The group of the extensions takes the only one twice.
theorem findFiles_jsjs :
    findFiles (oneFile "a.jsjs") ⟨"/", ["src"]⟩ (.everywhere ["js"]) false = .ok ["a.jsjs"] ∧
    (∀ name ∈ ["a.jsjs"], ¬ isHidden name) ∧
    ¬ ∃ extension ∈ ["js"], HasExtension ["a.jsjs"] extension := by
  refine ⟨by decide +kernel, by decide +kernel, by decide⟩

-- A name with two dots, and a hidden directory.
def cacheTree : Tree :=
  ⟨[(["src"], .directory), (["src", "a.test.js"], .file []), (["src", ".cache"], .directory),
    (["src", ".cache", "x.js"], .file [])]⟩

theorem findFiles_cache : ∃ files,
    findFiles cacheTree ⟨"/", ["src"]⟩ (.everywhere ["js", "jsx"]) false = .ok files ∧
    "a.test.js" ∈ files ∧ ".cache/x.js" ∉ files := by
  have ht : cacheTree.WellFormed := .ofEntries (by decide) (by decide)
  have hn : cacheTree.IsNamed := Tree.isNamed_iff.mpr <| by decide
  have hw : cacheTree.walk [] ["src"] = .ok ["src"] := by decide +kernel
  have ⟨files, hf, hmem, _⟩ := @findFiles_everywhere _ ⟨"/", ["src"]⟩ _ ["js", "jsx"] ht hn
    (by decide) (by decide) hw (by decide)
  refine ⟨files, hf, (hmem _).mpr ⟨["a.test.js"], [], by decide, by decide +kernel, ?_, rfl⟩, ?_⟩
  case refine_1 => exact Search.repeatsExtension_of_hasExtension (List.mem_cons_self ..) (by decide)
  case refine_2 =>
    intro hc
    have ⟨parts, content, hg, hh, _, hpath⟩ := (hmem _).mp hc
    have ⟨hp, hne⟩ := Tree.areNames_of_file ht hn (by decide) hg
    have hpath : pathText parts = pathText [".cache", "x.js"] := hpath
    obtain rfl := Search.pathText_inj hp hne (by decide) (by decide) hpath
    exact absurd (by decide +kernel) (hh ".cache" <| List.mem_cons_self ..)

end GraphqlArtifacts
