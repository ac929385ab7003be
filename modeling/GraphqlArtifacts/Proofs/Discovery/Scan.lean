import GraphqlArtifacts.Discovery.Files
import GraphqlArtifacts.Proofs.Discovery.Extensions
import GraphqlArtifacts.Proofs.Except
import GraphqlArtifacts.Proofs.Files.Tree
import GraphqlArtifacts.Proofs.Glob.Filter
import GraphqlArtifacts.Proofs.Text.Order

namespace GraphqlArtifacts

open Glob (Compiles Matches)

-- Names that can stand in a path.
def AreNames (parts : List String) : Prop :=
  ∀ name ∈ parts, name ≠ "" ∧ '/' ∉ name.toList

instance : DecidablePred AreNames :=
  fun parts => List.decidableBAll (fun name => name ≠ "" ∧ '/' ∉ name.toList) parts

namespace Tree

-- A tree whose entries have names that can stand in a path.
def IsNamed (t : Tree) : Prop :=
  ∀ {place e}, (place, e) ∈ t.entries → AreNames place

theorem isNamed_iff {t : Tree} : t.IsNamed ↔ ∀ entry ∈ t.entries, AreNames entry.1 :=
  ⟨fun h _ hm => h hm, fun h _ _ hm => h _ hm⟩

end Tree

variable {t : Tree} {s : Search} {parts place above : List String} {e : Entry}
  {content : List UInt8} {base : Path} {path pattern : String}

namespace Search

theorem isHidden_iff {name : String} : isHidden name ↔ Glob.IsHidden name.toList := by
  rw [isHidden, String.startsWith_string_iff, Glob.IsHidden, List.head?_eq_some_iff]
  exact exists_congr fun rest => eq_comm

theorem splitSlashes_pathText (hp : AreNames parts) (hn : parts ≠ []) :
    Glob.splitSlashes (pathText parts).toList = parts.map String.toList := by
  rw [pathText, String.toList_intercalate]
  refine Glob.splitSlashes_intercalate (by simpa using hn) ?_
  simpa using fun name hm => (hp name hm).right

theorem splitSlashes_pathText_slash (hp : AreNames parts) (hn : parts ≠ []) :
    Glob.splitSlashes (pathText parts ++ "/").toList = parts.map String.toList ++ [[]] := by
  rw [String.toList_append, show "/".toList = ['/'] from rfl, Glob.splitSlashes_join,
    splitSlashes_pathText hp hn]
  rfl

theorem pathText_inj {parts' : List String} (hp : AreNames parts) (hn : parts ≠ [])
    (hp' : AreNames parts') (hn' : parts' ≠ []) (h : pathText parts = pathText parts') :
    parts = parts' := by
  have hm : parts.map String.toList = parts'.map String.toList := by
    rw [← splitSlashes_pathText hp hn, h, splitSlashes_pathText hp' hn']
  exact List.map_injective_iff.mpr (fun _ _ => String.toList_inj.mp) hm

theorem leadsDown_pathText (hp : AreNames parts) (hn : parts ≠ []) (hd : ".." ∉ parts) :
    Path.LeadsDown (pathText parts) := by
  have hs := splitSlashes_pathText hp hn
  have hempty : [] ∉ parts.map String.toList := by
    simpa using fun hm => (hp "" hm).left rfl
  constructor
  case left =>
    have hr : Path.rootOf (pathText parts).toList = "" := by
      unfold Path.rootOf
      split
      case h_4 => rfl
      all_goals simp_all [Glob.splitSlashes, ← hs]
    simp [Path.isAbsolute, Path.ofText, hr]
  case right =>
    simp only [Path.IsResolved, Path.ofText, Path.partsOf, hs, List.mem_map, List.mem_filter]
    rintro ⟨_, ⟨⟨name, hm, rfl⟩, _⟩, hname⟩
    rw [String.ofList_toList] at hname
    exact hd <| hname ▸ hm

-- The paths to a place are those of its first names.
theorem mem_withParents (hp : AreNames parts) (hn : parts ≠ []) :
    path ∈ PathFilter.withParents (pathText parts) ↔
      ∃ n < parts.length, pathText (parts.take (n + 1)) = path := by
  have ht (n : Nat) : String.ofList (['/'].intercalate ((parts.map String.toList).take (n + 1))) =
      pathText (parts.take (n + 1)) := by
    rw [← String.toList_inj, String.toList_ofList, pathText, String.toList_intercalate,
      ← List.map_take]
    rfl
  simp [PathFilter.withParents, splitSlashes_pathText hp hn, ht]

-- The patterns of a set all stand for expressions.
structure Compiles (s : Search) : Prop where
  filePatterns : ∀ pattern ∈ s.filePatterns, Glob.Compiles pattern
  includes : ∀ pattern ∈ s.includes, Glob.Compiles pattern
  excludes : ∀ pattern ∈ s.excludes, Glob.Compiles pattern

-- The patterns that the scan looks at all stand for expressions. It looks at no include by itself.
structure IsScannable (s : Search) : Prop where
  filePatterns : ∀ pattern ∈ s.filePatterns, Glob.Compiles pattern
  excludes : ∀ pattern ∈ s.excludes, Glob.Compiles pattern

theorem Compiles.isScannable (h : s.Compiles) : s.IsScannable :=
  ⟨h.filePatterns, h.excludes⟩

theorem isScannable_of_noSets
    (hset : ∀ text ∈ s.extensions ++ s.includes ++ s.excludes, '[' ∉ text.toList) :
    s.IsScannable := by
  simp only [List.forall_mem_append] at hset
  obtain ⟨⟨hextensions, hincludes⟩, hexcludes⟩ := hset
  refine ⟨fun pattern hm => Glob.compiles_of_not_mem ?_,
    fun pattern hm => Glob.compiles_of_not_mem <| hexcludes pattern hm⟩
  obtain ⟨directory, hdir, rfl⟩ := List.mem_map.mp hm
  have halternatives : '[' ∉ ['|'].intercalate (s.extensions.map String.toList) :=
    Glob.not_mem_intercalate (List.forall_mem_map.mpr hextensions) (by decide)
  simp [String.toList_intercalate, hincludes directory hdir, halternatives]

-- A directory that the scan goes into.
structure Enters (s : Search) (parts : List String) : Prop where
  asked : isHidden (parts.getLast?.getD "") → s.filePatterns.any asksForHidden
  kept : ∀ pattern ∈ s.excludes,
    ¬ Matches pattern (pathText parts) ∧ ¬ Matches pattern (pathText parts ++ "/")

-- An entry that the scan comes to: all directories on the way are gone into.
def Reaches (s : Search) (parts : List String) : Prop :=
  ∀ n, 0 < n → n < parts.length → s.Enters (parts.take n)

-- With nothing to leave out, only hidden directories that no pattern asks for are in the way.
theorem reaches_iff_of_noExcludes (h : s.excludes = []) : s.Reaches parts ↔
    ((∃ name ∈ parts.dropLast, isHidden name) → s.filePatterns.any asksForHidden) := by
  have hlast {n : Nat} (hlt : n + 1 < parts.length) :
      (parts.take (n + 1)).getLast?.getD "" = parts[n] := by
    simp [List.getLast?_take, Nat.lt_of_succ_lt hlt]
  constructor
  case mp =>
    rintro hr ⟨name, hm, hh⟩
    obtain ⟨n, hlt, rfl⟩ := List.getElem_of_mem hm
    rw [List.length_dropLast] at hlt
    apply (hr (n + 1) (by omega) (by omega)).asked
    simpa [hlast (show n + 1 < parts.length by omega)] using hh
  case mpr =>
    intro ha n hpos hlt
    obtain ⟨n, rfl⟩ := Nat.exists_eq_succ_of_ne_zero (Nat.ne_of_gt hpos)
    refine ⟨fun hh => ha ⟨parts[n], ?_, by rwa [hlast hlt] at hh⟩, by simp [h]⟩
    exact List.mem_iff_getElem.mpr ⟨n, by simp; omega, by simp⟩

-- A file of the set that the scan comes to.
@[mk_iff]
structure Finds (s : Search) (parts : List String) : Prop where
  reached : s.Reaches parts
  kept : ∀ pattern ∈ s.excludes, ¬ Matches pattern (pathText parts)
  included : ∃ pattern ∈ s.filePatterns, Matches pattern (pathText parts)

-- A path that the filter lets through: no exclude matches it or a directory that it lies in.
structure Admits (s : Search) (parts : List String) : Prop where
  kept : ∀ pattern ∈ s.excludes, ∀ n < parts.length,
    ¬ Matches pattern (pathText (parts.take (n + 1)))
  included : ∃ pattern ∈ s.filePatterns, Matches pattern (pathText parts)

-- A scan does not come to a file in a directory that an exclude matches.
theorem finds_iff_admits (hn : parts ≠ []) : s.Finds parts ↔ s.Reaches parts ∧ s.Admits parts := by
  have hpos := List.length_pos_iff.mpr hn
  constructor
  case mp =>
    refine fun hf => ⟨hf.reached, fun pattern hm n hlt => ?_, hf.included⟩
    by_cases hlast : n + 1 = parts.length
    case pos => simpa [hlast] using hf.kept pattern hm
    case neg => exact ((hf.reached (n + 1) (by omega) (by omega)).kept pattern hm).left
  case mpr =>
    refine fun ⟨hr, ha⟩ => ⟨hr, fun pattern hm => ?_, ha.included⟩
    simpa [Nat.sub_add_cancel hpos] using ha.kept pattern hm (parts.length - 1) (by omega)

-- A search with one more exclude.
def leavingOut (s : Search) (pattern : String) : Search :=
  { s with excludes := pattern :: s.excludes }

theorem IsScannable.leavingOut (h : s.IsScannable) (hc : Glob.Compiles pattern) :
    (s.leavingOut pattern).IsScannable :=
  ⟨h.filePatterns, List.forall_mem_cons.mpr ⟨hc, h.excludes⟩⟩

-- A pattern that matches a path, or a directory that it lies in with its slash or without it.
def Bars (pattern : String) (parts : List String) : Prop :=
  ∃ n, 0 < n ∧ n ≤ parts.length ∧ (Matches pattern (pathText (parts.take n)) ∨
    n < parts.length ∧ Matches pattern (pathText (parts.take n) ++ "/"))

theorem finds_leavingOut_iff (hn : parts ≠ []) :
    (s.leavingOut pattern).Finds parts ↔ s.Finds parts ∧ ¬ Bars pattern parts := by
  constructor
  case mp =>
    intro hf
    have hkept {parts} (h : (s.leavingOut pattern).Enters parts) : s.Enters parts :=
      ⟨h.asked, fun p hm => h.kept p <| List.mem_cons_of_mem _ hm⟩
    refine ⟨⟨fun n hpos hlt => hkept <| hf.reached n hpos hlt,
      fun p hm => hf.kept p <| List.mem_cons_of_mem _ hm, hf.included⟩, ?_⟩
    rintro ⟨n, hpos, hle, hm | ⟨hlt, hm⟩⟩
    case inr => exact ((hf.reached n hpos hlt).kept _ <| List.mem_cons_self ..).right hm
    case inl =>
      have ha := ((finds_iff_admits hn).mp hf).right
      refine ha.kept _ (List.mem_cons_self ..) (n - 1) (by omega) ?_
      rwa [Nat.sub_add_cancel hpos]
  case mpr =>
    intro ⟨hf, hb⟩
    have hpos := List.length_pos_iff.mpr hn
    refine ⟨fun n hpos hlt => ⟨(hf.reached n hpos hlt).asked, ?_⟩, ?_, hf.included⟩
    case refine_1 =>
      refine List.forall_mem_cons.mpr ⟨⟨fun hm => ?_, fun hm => ?_⟩, (hf.reached n hpos hlt).kept⟩
      · exact hb ⟨n, hpos, by omega, .inl hm⟩
      · exact hb ⟨n, hpos, by omega, .inr ⟨hlt, hm⟩⟩
    case refine_2 =>
      refine List.forall_mem_cons.mpr ⟨fun hm => hb ⟨parts.length, hpos, Nat.le_refl _, ?_⟩, hf.kept⟩
      exact .inl <| by rwa [List.take_length]

section

variable (h : s.IsScannable)

include h

theorem enters_decides : Decides (s.enters parts) (s.Enters parts) := by
  unfold enters
  by_cases hh : isHidden (parts.getLast?.getD "") && !s.filePatterns.any asksForHidden
  case pos =>
    refine ⟨false, if_pos hh, ?_⟩
    simp only [Bool.and_eq_true, Bool.not_eq_true', ← Bool.not_eq_true] at hh
    simpa using fun he : s.Enters parts => hh.right <| he.asked hh.left
  case neg =>
    rw [if_neg hh]
    refine (PathFilter.excludesDirectory_decides h.excludes).not.congr ?_
    simp only [filter, not_exists, not_and, not_or]
    refine ⟨fun hk => ⟨fun ha => ?_, hk⟩, Enters.kept⟩
    simpa [ha] using hh

theorem reaches_decides : Decides (s.reaches parts) (s.Reaches parts) := by
  have hgo (left n : Nat) : Decides (reaches.go s parts left n)
      (∀ k, n ≤ k → k < n + left → s.Enters (parts.take k)) := by
    induction left generalizing n
    case zero => exact ⟨true, rfl, by simp; omega⟩
    case succ left hi =>
      have he := @enters_decides s (parts.take n) h
      unfold reaches.go
      by_cases hn : s.Enters (parts.take n)
      case neg =>
        rw [he.eq_of_not hn]
        exact ⟨false, rfl, by simpa using ⟨n, Nat.le_refl n, by omega, hn⟩⟩
      case pos =>
        rw [he.eq_of hn]
        refine (hi (n + 1)).congr
          ⟨fun hk k hl hu => ?_, fun hk k hl hu => hk k (by omega) (by omega)⟩
        obtain rfl | hl := Nat.eq_or_lt_of_le hl
        · exact hn
        · exact hk k hl (by omega)
  refine (hgo (parts.length - 1) 1).congr ⟨fun hk n hl hu => ?_, fun hk n hl hu => ?_⟩
  · exact hk n hl (by omega)
  · exact hk n hl (by omega)

theorem accepts_decides (hp : AreNames parts) (hn : parts ≠ []) :
    Decides (s.filter.accepts (pathText parts)) (s.Admits parts) := by
  refine (PathFilter.accepts_decides (f := s.filter) h.excludes h.filePatterns).congr ?_
  simp only [not_exists, not_and, mem_withParents hp hn, filter]
  constructor
  case mp  => exact fun ⟨hk, hi⟩ => ⟨fun pattern hm n hlt => hk pattern hm _ ⟨n, hlt, rfl⟩, hi⟩
  case mpr =>
    refine fun ha => ⟨?_, ha.included⟩
    rintro pattern hm _ ⟨n, hlt, rfl⟩
    exact ha.kept pattern hm n hlt

theorem selects_file (hp : AreNames parts) (hn : parts ≠ []) :
    Decides (s.selects parts (.file content)) (s.Finds parts) := by
  have hr := @reaches_decides s parts h
  unfold selects
  by_cases hreach : s.Reaches parts
  case neg =>
    rw [hr.eq_of_not hreach]
    exact ⟨false, rfl, by simpa using fun hf : s.Finds parts => hreach hf.reached⟩
  case pos =>
    rw [hr.eq_of hreach, finds_iff_admits hn]
    exact (accepts_decides h hp hn).congr (and_iff_right hreach).symm

theorem selects_directory : ∃ b, s.selects parts .directory = .ok b := by
  have ⟨b, hb, _⟩ := @reaches_decides s parts h
  have ⟨b', hb', _⟩ := @enters_decides s parts h
  unfold selects
  cases b <;> simp [hb, hb', Entry.isFile]

end

end Search

namespace Tree

theorem mem_entriesBelow (ht : t.WellFormed) :
    (parts, e) ∈ t.entriesBelow place ↔ parts ≠ [] ∧ t.get? (place ++ parts) = some e := by
  simp only [entriesBelow, List.mem_filterMap, Prod.exists, Option.ite_none_right_eq_some,
    Bool.and_eq_true, List.isPrefixOf_iff_prefix, bne_iff_ne, Option.some.injEq, Prod.mk.injEq]
  constructor
  case mp =>
    rintro ⟨_, _, hm, ⟨⟨below, rfl⟩, hn⟩, rfl, rfl⟩
    rw [List.drop_left]
    exact ⟨by simpa using hn, (ht.mem_entries_iff.mp hm).right⟩
  case mpr =>
    rintro ⟨hn, hg⟩
    refine ⟨_, e, ht.mem_entries_iff.mpr ⟨by simp [hn], hg⟩, ⟨List.prefix_append .., ?_⟩, ?_, rfl⟩
    · simpa using hn
    · simp

theorem areNames_below (ht : t.WellFormed) (hn : t.IsNamed) (hp : parts ≠ [])
    (hg : t.get? (place ++ parts) = some e) : AreNames parts := by
  have hm : (place ++ parts, e) ∈ t.entries := ht.mem_entries_iff.mpr ⟨by simp [hp], hg⟩
  exact fun name hname => hn hm name <| List.mem_append_right _ hname

theorem areNames_of_file (ht : t.WellFormed) (hn : t.IsNamed) (hd : t.get? place = some .directory)
    (hg : t.get? (place ++ parts) = some (.file content)) : AreNames parts ∧ parts ≠ [] := by
  have hp : parts ≠ [] := by
    rintro rfl
    simp [hd] at hg
  exact ⟨areNames_below ht hn hp hg, hp⟩

theorem nodup_entriesBelow (ht : t.WellFormed) :
    (t.entriesBelow place).Pairwise fun entry other => entry.1 ≠ other.1 := by
  have hp : t.entries.Pairwise fun entry other => entry.1 ≠ other.1 := List.pairwise_map.mp ht.nodup
  refine List.Pairwise.filterMap _ ?_ hp
  rintro ⟨q, _⟩ ⟨q', _⟩ hn entry hq other hq'
  simp only [Option.ite_none_right_eq_some, Bool.and_eq_true, List.isPrefixOf_iff_prefix,
    Option.some.injEq] at hq hq'
  obtain ⟨⟨⟨below, rfl⟩, _⟩, rfl⟩ := hq
  obtain ⟨⟨⟨below', rfl⟩, _⟩, rfl⟩ := hq'
  simpa using hn

end Tree

open Search

section

variable [DecidablePred s.Finds]

-- The files below a place that a scan is to find.
def filesBelow (t : Tree) (s : Search) [DecidablePred s.Finds] (place : List String) :
    List String :=
  (t.entriesBelow place).filterMap fun entry =>
    if entry.2.isFile ∧ s.Finds entry.1 then some (pathText entry.1) else none

theorem mem_filesBelow (ht : t.WellFormed) (hd : t.get? place = some .directory) :
    path ∈ filesBelow t s place ↔
      ∃ parts content, t.get? (place ++ parts) = some (.file content) ∧ s.Finds parts ∧
        pathText parts = path := by
  simp only [filesBelow, List.mem_filterMap, Prod.exists, Option.ite_none_right_eq_some,
    Option.some.injEq, Tree.mem_entriesBelow ht]
  constructor
  case mp =>
    rintro ⟨parts, e, ⟨_, hg⟩, ⟨he, hf⟩, rfl⟩
    cases e
    case directory    => simp [Entry.isFile] at he
    case file content => exact ⟨parts, content, hg, hf, rfl⟩
  case mpr =>
    rintro ⟨parts, content, hg, hf, rfl⟩
    refine ⟨parts, _, ⟨?_, hg⟩, ⟨rfl, hf⟩, rfl⟩
    rintro rfl
    simp [hd] at hg

theorem nodup_filesBelow (ht : t.WellFormed) (hn : t.IsNamed) :
    (filesBelow t s place).Nodup := by
  refine List.Pairwise.filterMap _ ?_ <| List.Pairwise.and_mem.mp <| Tree.nodup_entriesBelow ht
  rintro ⟨parts, e⟩ ⟨parts', e'⟩ ⟨hm, hm', hne⟩ path hp path' hp' rfl
  simp only [Option.ite_none_right_eq_some, Option.some.injEq] at hp hp'
  have ⟨hn₁, hg₁⟩ := (Tree.mem_entriesBelow ht).mp hm
  have ⟨hn₂, hg₂⟩ := (Tree.mem_entriesBelow ht).mp hm'
  exact hne <| pathText_inj (Tree.areNames_below ht hn hn₁ hg₁) hn₁
    (Tree.areNames_below ht hn hn₂ hg₂) hn₂ <| hp.right.trans hp'.right.symm

theorem findFiles_eq (ht : t.WellFormed) (hn : t.IsNamed) (h : s.IsScannable)
    (hw : t.walk [] base.parts = .ok place) (hd : t.get? place = some .directory) :
    findFiles t base s false = .ok (sortTexts (filesBelow t s place)) := by
  simp only [findFiles, hw, hd, bne_self_eq_false, Bool.false_eq_true, if_false, pure_bind]
  rw [filterMapM_ok, filesBelow]
  · rfl
  · rintro ⟨parts, e⟩ hm
    obtain ⟨hp, hg⟩ := (Tree.mem_entriesBelow ht).mp hm
    cases e
    case directory =>
      obtain ⟨b, hb⟩ := @selects_directory s parts h
      simp [hb, Except.mapError, bind, Except.bind, Entry.isFile, pure, Except.pure]
    case file content =>
      have hs := @selects_file s parts content h (Tree.areNames_below ht hn hp hg) hp
      by_cases hf : s.Finds parts
      case pos =>
        simp [hs.eq_of hf, hf, Except.mapError, bind, Except.bind, Entry.isFile, pure, Except.pure,
          isIgnored, anyOrFault]
      case neg =>
        simp [hs.eq_of_not hf, hf, Except.mapError, bind, Except.bind, Entry.isFile, pure,
          Except.pure]

end

theorem findFiles_scanned (ht : t.WellFormed) (hn : t.IsNamed) (h : s.IsScannable)
    (hw : t.walk [] base.parts = .ok place) (hd : t.get? place = some .directory) :
    ∃ files, findFiles t base s false = .ok files ∧ files.Nodup ∧
      (files.Pairwise fun a b => inOrder a b) ∧ ∀ path, path ∈ files ↔
        ∃ parts content, t.get? (place ++ parts) = some (.file content) ∧ s.Finds parts ∧
          pathText parts = path := by
  classical
  have hperm := sortTexts_perm (filesBelow t s place)
  refine ⟨_, findFiles_eq ht hn h hw hd, ?_, sortTexts_inOrder _, fun path => ?_⟩
  · exact hperm.nodup_iff.mpr <| nodup_filesBelow ht hn
  · exact hperm.mem_iff.trans <| mem_filesBelow ht hd

-- A path tells the names that lead to a file.
theorem mem_scanned (ht : t.WellFormed) (hn : t.IsNamed) (h : s.IsScannable)
    (hw : t.walk [] base.parts = .ok place) (hd : t.get? place = some .directory)
    (hp : AreNames parts) (hne : parts ≠ []) :
    ∃ files, findFiles t base s false = .ok files ∧ (pathText parts ∈ files ↔
      (∃ content, t.get? (place ++ parts) = some (.file content)) ∧ s.Finds parts) := by
  have ⟨files, hf, _, _, hmem⟩ := findFiles_scanned ht hn h hw hd
  refine ⟨files, hf, (hmem _).trans ⟨?_, ?_⟩⟩
  case refine_1 =>
    rintro ⟨parts', content, hg, hfinds, hpath⟩
    have ⟨hp', hne'⟩ := Tree.areNames_of_file ht hn hd hg
    obtain rfl := pathText_inj hp' hne' hp hne hpath
    exact ⟨⟨content, hg⟩, hfinds⟩
  case refine_2 => exact fun ⟨⟨content, hg⟩, hfinds⟩ => ⟨parts, content, hg, hfinds, rfl⟩

theorem mem_scanned_leavingOut (ht : t.WellFormed) (hn : t.IsNamed) (h : s.IsScannable)
    (hw : t.walk [] base.parts = .ok place) (hd : t.get? place = some .directory)
    (hp : AreNames parts) (hne : parts ≠ []) (hc : Compiles pattern) :
    ∃ files, findFiles t base (s.leavingOut pattern) false = .ok files ∧ (pathText parts ∈ files ↔
      (∃ content, t.get? (place ++ parts) = some (.file content)) ∧ s.Finds parts ∧
        ¬ Bars pattern parts) := by
  rw [← finds_leavingOut_iff hne]
  exact mem_scanned ht hn (h.leavingOut hc) hw hd hp hne

theorem findFiles_ok (ht : t.WellFormed) (hn : t.IsNamed) (h : s.Compiles)
    (hw : t.walk [] base.parts = .ok place) (hd : t.get? place = some .directory) :
    ∃ files, findFiles t base s false = .ok files ∧ files.Nodup ∧
      (files.Pairwise fun a b => inOrder a b) ∧ ∀ path, path ∈ files ↔
        ∃ parts content, t.get? (place ++ parts) = some (.file content) ∧ s.Finds parts ∧
          pathText parts = path :=
  findFiles_scanned ht hn h.isScannable hw hd

section

variable {respectIgnoreFiles : Bool} {files : List String} {file : String}

-- Whatever is found is a file below the directory that the set selects.
theorem mem_findFiles (h : findFiles t base s respectIgnoreFiles = .ok files) (hm : file ∈ files) :
    ∃ place parts content, t.walk [] base.parts = .ok place ∧
      (parts, .file content) ∈ t.entriesBelow place ∧
      s.selects parts (.file content) = .ok true ∧ pathText parts = file := by
  unfold findFiles at h
  split at h
  case h_1 =>
    cases h
    simp at hm
  case h_2 place hw =>
    split at h
    case isTrue =>
      cases h
      simp at hm
    case isFalse =>
      dsimp only at h
      split at h
      all_goals
        have ⟨ignoreFiles, _, h⟩ := bind_ok.mp h
        have ⟨found, hf, h⟩ := bind_ok.mp h
        cases h
        rw [(sortTexts_perm _).mem_iff] at hm
        have ⟨⟨parts, e⟩, he, h⟩ := mem_of_filterMapM hf hm
        have ⟨selected, hs, h⟩ := bind_ok.mp h
        split at h
        case isFalse => cases h
        case isTrue hb =>
          obtain ⟨rfl, hfile⟩ := Bool.and_eq_true_iff.mp hb
          have ⟨ignored, _, h⟩ := bind_ok.mp h
          cases ignored <;> cases h
          cases e
          case directory => cases hfile
          case file      => exact ⟨place, parts, _, hw, he, mapError_ok.mp hs, rfl⟩

-- Whatever is looked for, what is found is below the directory.
theorem findFiles_leadsDown (ht : t.WellFormed) (hn : t.IsNamed)
    (h : findFiles t base s respectIgnoreFiles = .ok files) :
    ∀ file ∈ files, Path.LeadsDown file := by
  intro file hm
  obtain ⟨place, parts, content, _, he, _, rfl⟩ := mem_findFiles h hm
  have ⟨hne, hg⟩ := (Tree.mem_entriesBelow ht).mp he
  have hd : ".." ∉ place ++ parts := ht.dotDot_not_mem hg
  exact leadsDown_pathText (Tree.areNames_below ht hn hne hg) hne fun hp =>
    hd <| List.mem_append_right _ hp

end

end GraphqlArtifacts
