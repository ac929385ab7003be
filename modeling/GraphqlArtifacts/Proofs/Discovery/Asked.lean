import Mathlib.Data.List.Induction
import GraphqlArtifacts.Proofs.Discovery.Modes
import GraphqlArtifacts.Proofs.Glob.Hidden

namespace GraphqlArtifacts

open Glob (IsPlain Matches IsHidden)
open Search (pathText isHidden)

namespace Glob

variable {s text part last : List Char} {texts parts : List (List Char)} {directory : String}
  {fits : List Char → List Char → Prop}

-- The last segment of a pattern, if it is no globstar, takes the last part of a path. A hidden part
-- before it fits another segment.
theorem exists_fits_of_cuts (hl : last ≠ ['*', '*']) (h : Cuts fits (texts ++ [last]) parts) :
    ∃ dirs part, parts = dirs ++ [part] ∧
      ∀ hidden ∈ dirs, IsHidden hidden → ∃ text ∈ texts, text ≠ ['*', '*'] ∧ fits text hidden := by
  induction texts generalizing parts
  case nil =>
    obtain ⟨part, rfl, _⟩ : ∃ part, parts = [part] ∧ fits last part := by simpa [Cuts, hl] using h
    exact ⟨[], part, rfl, by simp⟩
  case cons first texts hi =>
    rw [List.cons_append] at h
    by_cases hf : first = ['*', '*']
    case pos =>
      subst hf
      obtain ⟨taken, later, rfl, ht, hc⟩ := (cuts_anyDepth (by simp)).mp h
      obtain ⟨dirs, part, rfl, hdirs⟩ := hi hc
      refine ⟨taken ++ dirs, part, by simp, List.forall_mem_append.mpr ⟨?_, ?_⟩⟩
      case refine_1 => exact fun hidden hm hh => absurd hh (ht hidden hm).right
      case refine_2 =>
        intro hidden hm hh
        obtain ⟨text, hmem, hfits⟩ := hdirs hidden hm hh
        exact ⟨text, List.mem_cons_of_mem _ hmem, hfits⟩
    case neg =>
      obtain ⟨taken, later, rfl, ht, hc⟩ := (cuts_pieces hf).mp h
      obtain ⟨dirs, part, rfl, hdirs⟩ := hi hc
      refine ⟨taken :: dirs, part, by simp, List.forall_mem_cons.mpr ⟨?_, ?_⟩⟩
      case refine_1 => exact fun _ => ⟨first, List.mem_cons_self .., hf, ht⟩
      case refine_2 =>
        intro hidden hm hh
        obtain ⟨text, hmem, hfits⟩ := hdirs hidden hm hh
        exact ⟨text, List.mem_cons_of_mem _ hmem, hfits⟩

theorem mem_splitSlashes_of_dropDotSlash (h : text ∈ splitSlashes (dropDotSlash s)) :
    text ∈ splitSlashes s := by
  unfold dropDotSlash at h
  split at h
  case h_2 => exact h
  case h_1 rest =>
    rw [show '.' :: '/' :: rest = ['.'] ++ '/' :: rest from rfl,
      splitSlashes_append_slash (by decide)]
    exact List.mem_cons_of_mem _ h

-- The segments before the last one are those of the directories, but for a dot in front.
theorem segments_of_files (hs : '/' ∉ last) : ∃ texts,
    splitSlashes (dropDotSlash (s ++ '/' :: last)) = texts ++ [last] ∧ texts ⊆ splitSlashes s := by
  by_cases hd : s = ['.']
  case pos => exact ⟨[], by simp [hd, dropDotSlash, splitSlashes_of_not_mem hs], by simp⟩
  case neg =>
    rw [dropDotSlash_append hd, splitSlashes_join, splitSlashes_of_not_mem hs]
    exact ⟨_, rfl, fun text => mem_splitSlashes_of_dropDotSlash⟩

-- A hidden part that a segment without groups and sets fits starts with a dot that is spelled out.
theorem head?_of_fits_hidden (hs : '/' ∉ text) (hd : text ≠ ['*', '*']) (hp : '(' ∉ text)
    (hb : '{' ∉ text) (hset : '[' ∉ text) (hpart : '/' ∉ part) (hf : Fits text part)
    (hh : IsHidden part) : text.head? = some '.' ∧ (text = ['.'] → part = ['.']) ∧
      (text = ['.', '.'] → part = ['.', '.']) := by
  have ⟨hw, hguard⟩ := (fits_iff_wild hs hd hp hb hset hpart).mp hf
  refine ⟨?_, ?_, ?_⟩
  case refine_1 =>
    cases text
    case nil =>
      obtain rfl : part = [] := hw
      cases hh
    case cons c rest =>
      simp only [List.head?_cons, Option.some.injEq] at hguard ⊢
      obtain ⟨u, later, rfl, hu, _⟩ := wild_cons.mp hw
      have hstar : c ≠ '*' := fun hc => hguard (.inl hc) hh
      have hquestion : c ≠ '?' := fun hc => hguard (.inr hc) hh
      obtain rfl : u = [c] := by simpa [Spans, hstar, hquestion] using hu
      simpa [IsHidden] using hh
  case refine_2 =>
    rintro rfl
    simpa [Wild] using hw
  case refine_3 =>
    rintro rfl
    simpa [Wild] using hw

end Glob

namespace Tree

variable {parts : List String}

-- A tree that has just one entry and the directories above it.
theorem exists_along (hm : ".." ∉ parts) (hn : parts ≠ []) (e : Entry) :
    ∃ t : Tree, t.WellFormed ∧ t.get? parts = some e ∧
      ∀ place e', t.get? place = some e' → place <+: parts := by
  induction parts using List.reverseRecOn generalizing e
  case nil => contradiction
  case append_singleton dirs name hi =>
    obtain ⟨t, ht, hg, hp⟩ : ∃ t : Tree, t.WellFormed ∧ t.get? dirs = some .directory ∧
        ∀ place e', t.get? place = some e' → place <+: dirs := by
      by_cases hd : dirs = []
      case pos =>
        refine ⟨.empty, .empty, by simp [hd], fun place e' hg => ?_⟩
        by_cases hp : place = []
        case pos => simp [hp]
        case neg => simp [get?, Tree.empty, hp] at hg
      case neg => exact hi (fun hc => hm <| List.mem_append_left _ hc) hd _
    have hnew : t.get? (dirs ++ [name]) ≠ some .directory := by
      intro hc
      have hle := (hp _ _ hc).length_le
      simp only [List.length_append, List.length_singleton] at hle
      omega
    refine ⟨_, (Became.set (e := e) ht (by simp) hm (by simpa using hg) hnew).wellFormed,
      by simp [get?_set], fun place e' hplace => ?_⟩
    rw [get?_set (by simp)] at hplace
    split at hplace
    case isTrue he => exact he ▸ List.prefix_refl _
    case isFalse   => exact (hp place e' hplace).trans <| List.prefix_append ..

end Tree

variable {t : Tree} {base : Path} {place parts : List String} {s : Search}

namespace Search

-- A file that the patterns match is found, in all trees and wherever it is.
def FindsIncluded (s : Search) : Prop :=
  ∀ (t : Tree) (base : Path) (place : List String), t.WellFormed → t.IsNamed →
    (∀ entry ∈ t.entries, "." ∉ entry.1) → t.walk [] base.parts = .ok place →
    t.get? place = some .directory → ∃ files, findFiles t base s false = .ok files ∧
      ∀ parts content, t.get? (place ++ parts) = some (.file content) →
        (∃ pattern ∈ s.filePatterns, Matches pattern (pathText parts)) → pathText parts ∈ files

-- Whether a path of files that the patterns match has a hidden directory.
def MatchesBelowHidden (s : Search) : Prop :=
  ∃ parts, AreNames parts ∧ "." ∉ parts ∧ ".." ∉ parts ∧
    (∃ pattern ∈ s.filePatterns, Matches pattern (pathText parts)) ∧
    ∃ name ∈ parts.dropLast, isHidden name

theorem finds_iff_of_noExcludes (h : s.excludes = []) : s.Finds parts ↔
    (∃ pattern ∈ s.filePatterns, Matches pattern (pathText parts)) ∧
      ((∃ name ∈ parts.dropLast, isHidden name) → s.filePatterns.any asksForHidden) := by
  simp [finds_iff, reaches_iff_of_noExcludes h, h, and_comm]

-- A pattern of plain segments matches nothing in a hidden directory that it does not ask for.
theorem asksForHidden_of_matches {directory : String} {last : List Char} (hs : '/' ∉ last)
    (hd : last ≠ ['*', '*']) (hp : '(' ∉ directory.toList) (hb : '{' ∉ directory.toList)
    (hset : '[' ∉ directory.toList) (hset' : '[' ∉ last) (hnames : AreNames parts)
    (hdot : "." ∉ parts) (hdots : ".." ∉ parts)
    (hm : Matches (directory ++ String.ofList ('/' :: last)) (pathText parts))
    (hh : ∃ name ∈ parts.dropLast, isHidden name) :
    asksForHidden (directory ++ String.ofList ('/' :: last)) := by
  have ⟨name, hname, hidden⟩ := hh
  have hmem := List.dropLast_subset _ hname
  have ⟨texts, htexts, hsub⟩ := @Glob.segments_of_files directory.toList last hs
  rw [Glob.matches_iff_cuts (by simp [hset, hset']),
    splitSlashes_pathText hnames (List.ne_nil_of_mem hmem), String.toList_append,
    String.toList_ofList, htexts] at hm
  have ⟨dirs, part, hparts, hfits⟩ := Glob.exists_fits_of_cuts hd hm
  have hdirs : parts.dropLast.map String.toList = dirs := by
    rw [List.map_dropLast, hparts, List.dropLast_concat]
  rw [isHidden_iff] at hidden
  have ⟨text, ht, hd, hf⟩ := hfits name.toList (hdirs ▸ List.mem_map_of_mem hname) hidden
  have hsegment := Glob.splitSlashes_subset (hsub ht)
  have ⟨hhead, hone, htwo⟩ := Glob.head?_of_fits_hidden (Glob.slash_not_mem (hsub ht)) hd
    (fun hc => hp <| hsegment hc) (fun hc => hb <| hsegment hc) (fun hc => hset <| hsegment hc)
    (hnames name hmem).right hf hidden
  have hone : text ≠ ['.'] := by
    intro hc
    obtain rfl : name = "." := String.toList_inj.mp <| hone hc
    exact hdot hmem
  have htwo : text ≠ ['.', '.'] := by
    intro hc
    obtain rfl : name = ".." := String.toList_inj.mp <| htwo hc
    exact hdots hmem
  rw [asksForHidden, String.toList_append, String.toList_ofList, Glob.splitSlashes_join,
    Glob.splitSlashes_of_not_mem hs, List.dropLast_concat, List.any_eq_true]
  exact ⟨text, hsub ht, by simp [hhead, hone, htwo]⟩

theorem not_matchesBelowHidden (hplain : ∀ extension ∈ s.extensions, IsPlain extension.toList)
    (hdirs : ∀ directory ∈ s.includes, '(' ∉ directory.toList ∧ '{' ∉ directory.toList ∧
      '[' ∉ directory.toList) (ha : ¬ s.filePatterns.any asksForHidden) :
    ¬ s.MatchesBelowHidden := by
  rintro ⟨parts, hnames, hdot, hdots, ⟨pattern, hm, hmatch⟩, hh⟩
  have hplain : ∀ extension ∈ s.extensions.map String.toList, IsPlain extension := by
    simpa using hplain
  refine ha <| List.any_eq_true.mpr ⟨pattern, hm, ?_⟩
  rw [filePatterns_eq] at hm
  obtain ⟨directory, hd, rfl⟩ := List.mem_map.mp hm
  have ⟨hp, hb, hset⟩ := hdirs directory hd
  exact asksForHidden_of_matches (Glob.not_mem_filePattern hplain <| .inl rfl)
    (by simp [Glob.filePattern]) hp hb hset (Glob.not_mem_filePattern hplain <| .inr rfl)
    hnames hdot hdots hmatch hh

section

variable (h : s.IsScannable) (hx : s.excludes = [])

include h hx

theorem findsIncluded_of (hor : s.filePatterns.any asksForHidden ∨ ¬ s.MatchesBelowHidden) :
    s.FindsIncluded := by
  intro t base place ht hn hdot hw hd
  have ⟨files, hfiles, _, _, hmem⟩ := findFiles_scanned ht hn h hw hd
  refine ⟨files, hfiles, fun parts content hg hmatch => ?_⟩
  have ⟨hnames, hne⟩ := Tree.areNames_of_file ht hn hd hg
  have hentry := ht.mem_entries_iff.mpr ⟨by simp [hne], hg⟩
  refine (hmem _).mpr ⟨parts, content, hg, (finds_iff_of_noExcludes hx).mpr ⟨hmatch, ?_⟩, rfl⟩
  refine fun hh => hor.resolve_right fun hnot => hnot ⟨parts, hnames, ?_, ?_, hmatch, hh⟩
  case refine_1 => exact fun hc => hdot _ hentry <| List.mem_append_right _ hc
  case refine_2 => exact fun hc => ht.dotDot_not_mem hg <| List.mem_append_right _ hc

-- In a tree with just a file below a hidden directory, the file is found only if it is asked for.
theorem FindsIncluded.asks (hf : s.FindsIncluded) (hb : s.MatchesBelowHidden) :
    s.filePatterns.any asksForHidden := by
  have ⟨parts, hnames, hdot, hdots, hmatch, hh⟩ := hb
  have hn : parts ≠ [] := by
    rintro rfl
    simp at hh
  have ⟨t, ht, hg, hp⟩ := Tree.exists_along hdots hn (.file [])
  have hbelow {place : List String} {e : Entry} (hm : (place, e) ∈ t.entries) : place ⊆ parts :=
    (hp place e (ht.mem_entries_iff.mp hm).right).subset
  have hnamed : t.IsNamed := fun hm name hname => hnames name <| hbelow hm hname
  have ⟨files, hfiles, hall⟩ := hf t ⟨"/", []⟩ [] ht hnamed
    (fun _ hm hc => hdot <| hbelow hm hc) rfl Tree.get?_nil
  have ⟨files', hfiles', hmem⟩ :=
    @mem_scanned _ _ _ _ ⟨"/", []⟩ ht hnamed h rfl Tree.get?_nil hnames hn
  obtain rfl := Except.ok.inj <| hfiles.symm.trans hfiles'
  exact ((finds_iff_of_noExcludes hx).mp (hmem.mp <| hall parts [] hg hmatch).right).right hh

-- All files that the patterns match are found, in all trees, exactly if a pattern spells out a
-- hidden directory or no pattern matches anything below one. Patterns of plain extensions and of
-- includes without groups and sets are such patterns.
theorem findsIncluded_iff :
    (s.FindsIncluded ↔ s.filePatterns.any asksForHidden ∨ ¬ s.MatchesBelowHidden) ∧
    ((∀ extension ∈ s.extensions, IsPlain extension.toList) →
      (∀ directory ∈ s.includes, '(' ∉ directory.toList ∧ '{' ∉ directory.toList ∧
        '[' ∉ directory.toList) → s.FindsIncluded) := by
  refine ⟨⟨fun hf => or_not_of_imp <| hf.asks h hx, findsIncluded_of h hx⟩, fun hplain hdirs => ?_⟩
  exact findsIncluded_of h hx <| or_iff_not_imp_left.mpr <| not_matchesBelowHidden hplain hdirs

end

-- A file below a hidden directory, and an include that names the directory in a group.

def hiddenTree : Tree :=
  ⟨[(["src"], .directory), (["src", ".storybook"], .directory),
    (["src", ".storybook", "a.js"], .file [])]⟩

def groupSearch : Search :=
  ⟨["js"], ["{.storybook,src}"], []⟩

theorem findFiles_group : (∀ pattern ∈ groupSearch.filePatterns, Glob.Compiles pattern) ∧
    hiddenTree.get? ["src", ".storybook", "a.js"] = some (.file []) ∧
    (∃ pattern ∈ groupSearch.filePatterns, Matches pattern (pathText [".storybook", "a.js"])) ∧
    findFiles hiddenTree ⟨"/", ["src"]⟩ groupSearch false = .ok [] := by
  unfold Glob.Compiles Matches
  decide +kernel

theorem findsIncluded_storybook :
    (⟨["js", "jsx"], ["src/**", "./.storybook/*"], []⟩ : Search).FindsIncluded := by
  have h : (⟨["js", "jsx"], ["src/**", "./.storybook/*"], []⟩ : Search).IsScannable :=
    isScannable_of_noSets <| by decide
  exact (findsIncluded_iff h rfl).right (by decide) (by decide)

end Search

end GraphqlArtifacts
