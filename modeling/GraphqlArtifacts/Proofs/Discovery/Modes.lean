import GraphqlArtifacts.Proofs.Discovery.Extensions
import GraphqlArtifacts.Proofs.Discovery.Scan

namespace GraphqlArtifacts

open Glob (Matches IsPlain)
open Search (pathText)

variable {t : Tree} {base : Path} {place parts : List String} {s : Search} {e : Entry} {α : Type}

namespace FileTerm

-- Whether a name ends in a dot and an extension.
def HasExtension (parts : List String) (extension : String) : Prop :=
  '.' :: extension.toList <:+ (parts.getLast?.getD "").toList

instance (parts : List String) (extension : String) : Decidable (HasExtension parts extension) :=
  inferInstanceAs (Decidable (_ <:+ _))

mutual

-- Whether the service counts a file by a condition, given the names that lead to the file.
def holds (parts : List String) (e : Entry) : FileTerm → Bool
  | .allOf terms         => allHold parts e terms
  | .anyOf terms         => anyHolds parts e terms
  | .not term            => !term.holds parts e
  | .regularFile         => e.isFile
  | .suffix extension    => decide (HasExtension parts extension)
  | .wholeName pattern   => decide (Glob.accepts pattern (pathText parts) = .ok true)

def allHold (parts : List String) (e : Entry) : List FileTerm → Bool
  | []           => true
  | term :: rest => term.holds parts e && allHold parts e rest

def anyHolds (parts : List String) (e : Entry) : List FileTerm → Bool
  | []           => false
  | term :: rest => term.holds parts e || anyHolds parts e rest

end

variable {terms : List FileTerm} {items : List α} {f : α → FileTerm}

theorem allHold_iff : allHold parts e terms ↔ ∀ term ∈ terms, term.holds parts e := by
  induction terms <;> simp_all [allHold]

theorem anyHolds_iff : anyHolds parts e terms ↔ ∃ term ∈ terms, term.holds parts e := by
  induction terms <;> simp_all [anyHolds]

end FileTerm

open FileTerm

namespace Search

-- A file that the condition of a set describes.
@[mk_iff]
structure Describes (s : Search) (parts : List String) : Prop where
  extension : ∃ extension ∈ s.extensions, HasExtension parts extension
  included : ∃ pattern ∈ s.includes, Matches pattern (pathText parts)
  kept : ∀ pattern ∈ s.excludes, ¬ Matches pattern (pathText parts)

theorem holds_term_iff : s.term.holds parts e ↔ e.isFile ∧ s.Describes parts := by
  rw [describes_iff]
  simp [term, holds, allHold_iff, anyHolds_iff, Matches, or_imp, forall_and]

-- A set with plain extensions of all files below some directories.
structure IsDeep (s : Search) : Prop where
  some : s.extensions ≠ []
  plain : ∀ extension ∈ s.extensions, IsPlain extension.toList
  noSets : ∀ directory ∈ s.includes, '[' ∉ directory.toList
  globstar : ∀ directory ∈ s.includes,
    (Glob.splitSlashes (Glob.dropDotSlash directory.toList)).getLast? = Option.some ['*', '*']

-- Whether one or more of the extensions end a name, after a dot.
def RepeatsExtension (s : Search) (parts : List String) : Prop :=
  ∃ run taken, taken ≠ [] ∧ (∀ extension ∈ taken, extension ∈ s.extensions) ∧
    (parts.getLast?.getD "").toList = run ++ '.' :: (taken.map String.toList).flatten

theorem repeatsExtension_of_hasExtension {extension : String} (h : extension ∈ s.extensions)
    (hp : HasExtension parts extension) : s.RepeatsExtension parts := by
  have ⟨run, hr⟩ := hp
  exact ⟨run, [extension], by simp, by simpa using h, by simp [← hr]⟩

theorem filePatterns_eq : s.filePatterns = s.includes.map fun directory => directory ++
    String.ofList ('/' :: Glob.filePattern (s.extensions.map String.toList)) := by
  refine List.map_congr_left fun directory _ => ?_
  rw [← String.toList_inj]
  simp [Glob.filePattern, String.toList_intercalate]

theorem repeatsExtension_iff {dirs : List String} {name : String} :
    s.RepeatsExtension (dirs ++ [name]) ↔ ∃ run taken, taken ≠ [] ∧
      (∀ extension ∈ taken, extension ∈ s.extensions.map String.toList) ∧
        name.toList = run ++ '.' :: taken.flatten := by
  constructor
  case mp =>
    rintro ⟨run, taken, hn, ht, hname⟩
    refine ⟨run, taken.map String.toList, by simpa using hn, ?_, by simpa using hname⟩
    exact List.forall_mem_map.mpr fun extension he => List.mem_map_of_mem (ht extension he)
  case mpr =>
    rintro ⟨run, taken, hn, ht, hname⟩
    have hm : (taken.map String.ofList).map String.toList = taken := by
      simp [List.map_map, Function.comp_def]
    refine ⟨run, taken.map String.ofList, by simpa using hn, ?_, by simpa [hm] using hname⟩
    rw [List.forall_mem_map]
    intro text htext
    obtain ⟨extension, he, rfl⟩ := List.mem_map.mp <| ht text htext
    simpa using he

-- The patterns for the files of such a set match those that an include matches, by their names.
theorem filePatterns_match_iff (h : s.IsDeep) (hp : AreNames parts) (hn : parts ≠ []) :
    (∃ pattern ∈ s.filePatterns, Matches pattern (pathText parts)) ↔
      (∃ pattern ∈ s.includes, Matches pattern (pathText parts)) ∧ s.RepeatsExtension parts := by
  have hpath := splitSlashes_pathText hp hn
  obtain ⟨dirs, name, rfl⟩ := parts.eq_nil_or_concat'.resolve_left hn
  rw [List.map_append, List.map_singleton] at hpath
  have hslash : '/' ∉ name.toList := (hp name (by simp)).right
  have hne : ∀ part ∈ dirs.map String.toList, part ≠ [] := by
    simpa using fun directory hm => (hp directory <| List.mem_append_left _ hm).left
  have hsome : s.extensions.map String.toList ≠ [] := by simpa using h.some
  have hplain : ∀ extension ∈ s.extensions.map String.toList, IsPlain extension := by
    simpa using h.plain
  rw [filePatterns_eq]
  simp only [List.mem_map, exists_exists_and_eq_and]
  rw [repeatsExtension_iff, ← exists_and_right]
  refine exists_congr fun directory => ?_
  rw [and_assoc, and_congr_right_iff]
  intro hm
  have hset := h.noSets directory hm
  have hend := h.globstar directory hm
  rw [Glob.matches_files_iff hset hend hpath hsome hplain hslash hne,
    Glob.fits_filePattern_iff hsome hplain hslash, and_congr_right_iff]
  exact fun hmatch => and_iff_right <| Glob.not_isHidden_of_matches hset hend hpath hmatch

end Search

-- The files below a directory for which a condition holds.
def IsAnswer (t : Tree) (place : List String) (term : FileTerm) (files : List String) : Prop :=
  ∀ path, path ∈ files ↔
    ∃ parts e, t.get? (place ++ parts) = some e ∧ term.holds parts e ∧ pathText parts = path

theorem exists_holds_iff {path : String} : (∃ parts e, t.get? (place ++ parts) = some e ∧
    s.term.holds parts e ∧ pathText parts = path) ↔ ∃ parts content,
      t.get? (place ++ parts) = some (.file content) ∧ s.Describes parts ∧
        pathText parts = path := by
  simp only [Search.holds_term_iff]
  constructor
  case mp =>
    rintro ⟨parts, e, hg, ⟨he, hdesc⟩, hpath⟩
    cases e
    case directory    => cases he
    case file content => exact ⟨parts, content, hg, hdesc, hpath⟩
  case mpr =>
    rintro ⟨parts, content, hg, hdesc, hpath⟩
    exact ⟨parts, _, hg, ⟨rfl, hdesc⟩, hpath⟩

-- A path tells the names that lead to a file, so the scan and the service agree file by file.
theorem isAnswer_iff {files : List String} (ht : t.WellFormed) (hn : t.IsNamed)
    (hd : t.get? place = some .directory) (hmem : ∀ path, path ∈ files ↔ ∃ parts content,
      t.get? (place ++ parts) = some (.file content) ∧ s.Finds parts ∧ pathText parts = path) :
    IsAnswer t place s.term files ↔ ∀ parts content,
      t.get? (place ++ parts) = some (.file content) → (s.Describes parts ↔ s.Finds parts) := by
  have hinj {parts parts' content content'} (hg : t.get? (place ++ parts) = some (.file content))
      (hg' : t.get? (place ++ parts') = some (.file content'))
      (hpath : pathText parts' = pathText parts) : parts' = parts :=
    Search.pathText_inj (Tree.areNames_of_file ht hn hd hg').left
      (Tree.areNames_of_file ht hn hd hg').right (Tree.areNames_of_file ht hn hd hg).left
      (Tree.areNames_of_file ht hn hd hg).right hpath
  simp only [IsAnswer, hmem, exists_holds_iff]
  constructor
  case mp =>
    intro h parts content hg
    constructor
    case mp =>
      intro hdesc
      have ⟨parts', _, hg', hf, hpath⟩ := (h _).mpr ⟨parts, content, hg, hdesc, rfl⟩
      exact hinj hg hg' hpath ▸ hf
    case mpr =>
      intro hf
      have ⟨parts', _, hg', hdesc, hpath⟩ := (h _).mp ⟨parts, content, hg, hf, rfl⟩
      exact hinj hg hg' hpath ▸ hdesc
  case mpr =>
    intro h path
    refine exists₂_congr fun parts content => and_congr_right fun hg => and_congr_left' ?_
    exact (h parts content hg).symm

-- The scan gives what the condition describes exactly if, of the files that no exclude matches,
-- those with an extension and a path to include are those that have the form of a file of the set
-- and are come to. If all below some directories is included, only two things can set them apart:
-- an extension that is repeated, and a directory that is not gone into.
theorem modes_agree_iff (ht : t.WellFormed) (hn : t.IsNamed) (h : s.Compiles)
    (hw : t.walk [] base.parts = .ok place) (hd : t.get? place = some .directory) :
    ∃ files, findFiles t base s false = .ok files ∧ files.Nodup ∧
      (files.Pairwise fun a b => inOrder a b) ∧
      (IsAnswer t place s.term files ↔ ∀ parts content,
        t.get? (place ++ parts) = some (.file content) →
        (∀ pattern ∈ s.excludes, ¬ Matches pattern (pathText parts)) →
          ((∃ extension ∈ s.extensions, HasExtension parts extension) ∧
              (∃ pattern ∈ s.includes, Matches pattern (pathText parts)) ↔
            (∃ pattern ∈ s.filePatterns, Matches pattern (pathText parts)) ∧ s.Reaches parts)) ∧
      (s.IsDeep → (IsAnswer t place s.term files ↔ ∀ parts content,
        t.get? (place ++ parts) = some (.file content) →
        (∀ pattern ∈ s.excludes, ¬ Matches pattern (pathText parts)) →
        (∃ pattern ∈ s.includes, Matches pattern (pathText parts)) → s.RepeatsExtension parts →
          ((∃ extension ∈ s.extensions, HasExtension parts extension) ↔ s.Reaches parts))) := by
  have ⟨files, hf, hnodup, hsorted, hmem⟩ := findFiles_ok ht hn h hw hd
  have hiff := isAnswer_iff ht hn hd hmem
  refine ⟨files, hf, hnodup, hsorted, hiff.trans ?_, fun hdeep => hiff.trans ?_⟩
  case refine_1 =>
    have hprop (A B K P R : Prop) : (A ∧ B ∧ K ↔ R ∧ K ∧ P) ↔ (K → (A ∧ B ↔ P ∧ R)) := by
      grind
    refine forall₃_congr fun parts content hg => ?_
    rw [Search.describes_iff, Search.finds_iff]
    exact hprop ..
  case refine_2 =>
    have hprop {A D : Prop} (B K R : Prop) (h : A → D) :
        (A ∧ B ∧ K ↔ R ∧ K ∧ B ∧ D) ↔ (K → B → D → (A ↔ R)) := by
      grind
    refine forall₃_congr fun parts content hg => ?_
    have ⟨hnames, hne⟩ := Tree.areNames_of_file ht hn hd hg
    rw [Search.describes_iff, Search.finds_iff, Search.filePatterns_match_iff hdeep hnames hne]
    exact hprop _ _ _ fun ⟨extension, he, hp⟩ => Search.repeatsExtension_of_hasExtension he hp

-- A directory with one file.
def oneFile (name : String) : Tree :=
  (Tree.empty.set ["src"] .directory).set ["src", name] (.file [])

theorem get?_oneFile (name : String) : (oneFile name).get? place =
    if place = ["src", name] then some (.file []) else
      if place = ["src"] then some .directory else Tree.empty.get? place := by
  rw [oneFile, Tree.get?_set (by simp), Tree.get?_set (by simp)]

theorem eq_of_oneFile {name : String} {content : List UInt8}
    (h : (oneFile name).get? (["src"] ++ parts) = some (.file content)) : parts = [name] := by
  rw [get?_oneFile] at h
  split at h
  case isTrue hp  => simpa using hp
  case isFalse => split at h <;> simp [Tree.get?, Tree.empty] at h

-- The group of the extensions takes one of them twice.
theorem repeated_not_answer : (Search.sources ["js"] ["**"] []).Compiles ∧
    findFiles (oneFile "a.jsjs") ⟨"/", ["src"]⟩ (.sources ["js"] ["**"] []) false =
      .ok ["a.jsjs"] ∧
    ¬ IsAnswer (oneFile "a.jsjs") ["src"] (Search.sources ["js"] ["**"] []).term ["a.jsjs"] := by
  refine ⟨by constructor <;> (unfold Glob.Compiles; decide +kernel), by decide +kernel, fun h => ?_⟩
  have ⟨parts, e, hg, hh, _⟩ := (h "a.jsjs").mp (by simp)
  obtain ⟨he, ⟨_, hm, hext⟩, _⟩ := Search.holds_term_iff.mp hh
  cases e
  case directory => cases he
  case file =>
    obtain rfl := eq_of_oneFile hg
    obtain rfl := List.mem_singleton.mp hm
    exact absurd hext (by decide)

theorem oneFile_wellFormed {name : String} (h : name ≠ "..") : (oneFile name).WellFormed := by
  have hs : (Tree.empty.set ["src"] .directory).WellFormed :=
    (Tree.Became.set .empty (by decide) (by decide) (by decide) (by decide)).wellFormed
  have hg : (Tree.empty.set ["src"] .directory).get? ["src", name] = none := by
    rw [Tree.get?_set (by simp)]
    simp [Tree.get?, Tree.empty]
  exact (Tree.Became.set hs (by simp) (by simpa using h.symm) (by simp [Tree.get?_set])
    (by simp [hg])).wellFormed

theorem modes_agree_app : ∃ files, findFiles (oneFile "App.js") ⟨"/", ["src"]⟩
      (.sources ["js", "jsx"] ["**"] ["**/node_modules/**"]) false = .ok files ∧
    IsAnswer (oneFile "App.js") ["src"]
      (Search.sources ["js", "jsx"] ["**"] ["**/node_modules/**"]).term files := by
  have hn : (oneFile "App.js").IsNamed := by
    intro place e hm
    have he : (oneFile "App.js").entries =
        [(["src"], .directory), (["src", "App.js"], .file [])] := by decide
    rw [he] at hm
    simp only [List.mem_cons, Prod.mk.injEq, List.not_mem_nil, or_false] at hm
    obtain ⟨rfl, _⟩ | ⟨rfl, _⟩ := hm <;> simp [AreNames]
  have hc : (Search.sources ["js", "jsx"] ["**"] ["**/node_modules/**"]).Compiles := by
    constructor <;> (unfold Glob.Compiles; decide +kernel)
  have hw : (oneFile "App.js").walk [] ["src"] = .ok ["src"] := by decide +kernel
  have ⟨files, hf, _, _, _, hdeep⟩ :=
    @modes_agree_iff _ ⟨"/", ["src"]⟩ _ _ (oneFile_wellFormed (by decide)) hn hc hw (by decide)
  refine ⟨files, hf, (hdeep ⟨by decide, by decide, by decide, by decide⟩).mpr ?_⟩
  intro parts content hg _ _ _
  obtain rfl := eq_of_oneFile hg
  have hreach : (Search.sources ["js", "jsx"] ["**"] ["**/node_modules/**"]).Reaches ["App.js"] :=
    fun n hl hu => absurd hu (by simp; omega)
  exact iff_of_true (by decide) hreach

end GraphqlArtifacts
