import GraphqlArtifacts.Proofs.Discovery.Scan

namespace GraphqlArtifacts

open Search (pathText isHidden)

namespace Glob

-- A pattern whose last segment is a globstar, or else is there and has no groups.
def EndsPlainly (pattern : String) : Prop :=
  ∃ last, (splitSlashes pattern.toList).getLast? = some last ∧
    (last = ['*', '*'] ∨ last ≠ [] ∧ '(' ∉ last ∧ '{' ∉ last)

variable {pattern : String} {s text part part' : List Char} {before parts : List (List Char)}
  {fits : List Char → List Char → Prop}

theorem getLast?_dropDotSlash :
    (splitSlashes (dropDotSlash s)).getLast? = (splitSlashes s).getLast? := by
  unfold dropDotSlash
  split
  case h_2 => rfl
  case h_1 rest =>
    have hs : splitSlashes ('.' :: '/' :: rest) = ['.'] :: splitSlashes rest :=
      @splitSlashes_append_slash ['.'] rest (by decide)
    have ⟨part, parts, hr⟩ := exists_splitSlashes rest
    rw [hs, hr, List.getLast?_cons_cons]

-- What takes nothing consists of stars, and takes anything.
theorem wild_of_wild_nil (hn : text ≠ []) (h : Wild text []) : Wild text part := by
  obtain ⟨c, rest, rfl⟩ := List.exists_cons_of_ne_nil hn
  obtain ⟨u, later, hu, hs, hr⟩ := wild_cons.mp h
  obtain ⟨rfl, rfl⟩ := List.append_eq_nil_iff.mp hu.symm
  have hc : c = '*' := by
    by_contra hc
    by_cases hq : c = '?' <;> simp [Spans, hc, hq] at hs
  exact wild_cons.mpr ⟨part, [], by simp, by simp [Spans, hc], hr⟩

-- The last part of a path falls to the last segment of a pattern, and to no other.
theorem cuts_replace_last (h : Cuts fits (before ++ [text]) (parts ++ [part]))
    (hl : if text = ['*', '*'] then ¬ IsHidden part' else fits text part → fits text part') :
    Cuts fits (before ++ [text]) (parts ++ [part']) := by
  induction before generalizing parts
  case nil =>
    by_cases hd : text = ['*', '*']
    case pos =>
      subst hd
      have ⟨_, hh⟩ := cuts_last.mp h
      rw [List.forall_mem_append] at hh
      exact cuts_last.mpr ⟨by simp, List.forall_mem_append.mpr ⟨hh.left, by simpa using hl⟩⟩
    case neg =>
      simp only [List.nil_append, Cuts, hd, if_false, List.append_eq_singleton_iff] at h hl ⊢
      obtain ⟨_, ⟨rfl, hp⟩ | ⟨_, hp⟩, hf⟩ := h
      · obtain rfl := List.singleton_inj.mp hp
        exact ⟨part', .inl ⟨rfl, rfl⟩, hl hf⟩
      · cases hp
  case cons first before hi =>
    have hlater {taken later : List (List Char)} (hp : parts ++ [part] = taken ++ later)
        (hc : Cuts fits (before ++ [text]) later) :
        ∃ later', parts ++ [part'] = taken ++ later' ∧ Cuts fits (before ++ [text]) later' := by
      obtain rfl | ⟨rest, last, rfl⟩ := later.eq_nil_or_concat'
      case inl => exact absurd rfl <| cuts_ne_nil (by simp) hc
      case inr =>
        rw [← List.append_assoc] at hp
        obtain ⟨rfl, hpart⟩ := List.append_inj' hp rfl
        obtain rfl := List.singleton_inj.mp hpart
        exact ⟨rest ++ [part'], by simp, hi hc⟩
    rw [List.cons_append] at h ⊢
    by_cases hf : first = ['*', '*']
    case pos =>
      subst hf
      obtain ⟨taken, later, hp, ht, hc⟩ := (cuts_anyDepth (by simp)).mp h
      obtain ⟨later', hp', hc'⟩ := hlater hp hc
      exact (cuts_anyDepth (by simp)).mpr ⟨taken, later', hp', ht, hc'⟩
    case neg =>
      obtain ⟨taken, later, hp, ht, hc⟩ := (cuts_pieces hf).mp h
      obtain ⟨later', hp', hc'⟩ := @hlater [taken] later hp hc
      exact (cuts_pieces hf).mpr ⟨taken, later', hp', ht, hc'⟩

-- A pattern that matches a directory with its slash matches all that lies directly in it.
theorem matches_child {dirs : List String} {name : String} (hset : '[' ∉ pattern.toList)
    (hend : EndsPlainly pattern) (hn : dirs ≠ []) (hp : AreNames (dirs ++ [name]))
    (hh : ¬ isHidden name) (hm : Matches pattern (pathText dirs ++ "/")) :
    Matches pattern (pathText (dirs ++ [name])) := by
  obtain ⟨last, hlast, hplain⟩ := hend
  obtain ⟨before, hb⟩ := List.getLast?_eq_some_iff.mp <| getLast?_dropDotSlash.trans hlast
  have hdirs : AreNames dirs := fun name hm => hp name <| List.mem_append_left _ hm
  have hname : '/' ∉ name.toList := (hp name <| by simp).right
  rw [Search.isHidden_iff] at hh
  rw [matches_iff_cuts hset, hb, Search.splitSlashes_pathText_slash hdirs hn] at hm
  rw [matches_iff_cuts hset, hb, Search.splitSlashes_pathText hp (by simp), List.map_append,
    List.map_singleton]
  refine cuts_replace_last hm ?_
  split
  case isTrue => exact hh
  case isFalse hd =>
    obtain ⟨hne, hparen, hbrace⟩ := hplain.resolve_left hd
    have hmem : last ∈ splitSlashes (dropDotSlash pattern.toList) := by simp [hb]
    have hset : '[' ∉ last := fun hc => hset <| segment_subset hmem hc
    have hs := slash_not_mem hmem
    rw [fits_iff_wild hs hd hparen hbrace hset (by simp),
      fits_iff_wild hs hd hparen hbrace hset hname]
    exact fun ⟨hw, _⟩ => ⟨wild_of_wild_nil hne hw, fun _ => hh⟩

end Glob

open Glob (EndsPlainly)

variable {t : Tree} {base : Path} {place parts : List String} {s : Search}

namespace Search

-- What lies in a directory that is not gone into would not be let through: its next name is matched.
theorem finds_iff_of_endsPlainly (hset : ∀ pattern ∈ s.excludes, '[' ∉ pattern.toList)
    (hend : ∀ pattern ∈ s.excludes, EndsPlainly pattern) (hp : AreNames parts) (hn : parts ≠ [])
    (hh : ∀ name ∈ parts, ¬ isHidden name) : s.Finds parts ↔ s.Admits parts := by
  rw [finds_iff_admits hn]
  refine and_iff_right_of_imp fun ha n hpos hlt => ⟨fun hidden => ?_, fun pattern hm => ⟨?_, ?_⟩⟩
  case refine_1 =>
    have hne : parts.take n ≠ [] := by simpa using ⟨by omega, hn⟩
    rw [List.getLast?_eq_some_getLast hne, Option.getD_some] at hidden
    exact absurd hidden <| hh _ <| List.take_subset _ _ <| List.getLast_mem hne
  case refine_2 => simpa [Nat.sub_add_cancel hpos] using ha.kept pattern hm (n - 1) (by omega)
  case refine_3 =>
    intro hslash
    have htake : parts.take (n + 1) = parts.take n ++ [parts[n]] := by simp
    have hne : parts.take n ≠ [] := by simpa using ⟨by omega, hn⟩
    refine ha.kept pattern hm n hlt ?_
    rw [htake]
    refine Glob.matches_child (hset pattern hm) (hend pattern hm) hne ?_ ?_ hslash
    · exact htake ▸ fun name hname => hp name <| List.take_subset _ _ hname
    · exact hh _ <| List.getElem_mem hlt

end Search

-- The files that a scan is to find, if those are the files that the filter lets through.
theorem filesBelow_eq [DecidablePred s.Finds] (ht : t.WellFormed)
    (hd : t.get? place = some .directory)
    (hf : ∀ parts content, t.get? (place ++ parts) = some (.file content) →
      (s.Finds parts ↔ s.filter.accepts (pathText parts) = .ok true)) :
    filesBelow t s place =
      ((t.filesBelow place).map pathText).filter fun path => s.filter.accepts path = .ok true := by
  simp only [filesBelow, Tree.entriesBelow, Tree.filesBelow, List.filterMap_filterMap,
    List.map_filterMap, List.filter_filterMap]
  refine List.filterMap_congr ?_
  rintro ⟨q, e⟩ hm
  have hg := (ht.mem_entries_iff.mp hm).right
  by_cases hq : place <+: q
  case neg => simp [hq]
  case pos =>
    obtain ⟨parts, rfl⟩ := hq
    cases e
    case directory => simp [Entry.isFile, Option.filter]
    case file content =>
      have hne : parts ≠ [] := by
        rintro rfl
        simp [hd] at hg
      simp [Entry.isFile, hne, hf parts content hg, Option.filter]

-- Going into fewer directories loses no file, if no name below the base directory is hidden and the
-- excludes end plainly: a scan gives just the files that the filter lets through, in order.
theorem findFiles_eq_accepted (ht : t.WellFormed) (hn : t.IsNamed)
    (hw : t.walk [] base.parts = .ok place) (hd : t.get? place = some .directory)
    (hh : ∀ parts e, t.get? (place ++ parts) = some e → ∀ name ∈ parts, ¬ isHidden name)
    (hset : ∀ text ∈ s.extensions ++ s.includes ++ s.excludes, '[' ∉ text.toList)
    (hend : ∀ pattern ∈ s.excludes, EndsPlainly pattern) :
    findFiles t base s false = .ok (sortTexts <|
      ((t.filesBelow place).map pathText).filter fun path => s.filter.accepts path = .ok true) := by
  classical
  have h := Search.isScannable_of_noSets hset
  have hexcludes : ∀ pattern ∈ s.excludes, '[' ∉ pattern.toList := fun pattern hm =>
    hset pattern <| List.mem_append_right _ hm
  rw [findFiles_eq ht hn h hw hd, filesBelow_eq ht hd fun parts content hg => ?_]
  have ⟨hp, hne⟩ := Tree.areNames_of_file ht hn hd hg
  rw [Search.finds_iff_of_endsPlainly hexcludes hend hp hne (hh parts _ hg),
    (Search.accepts_decides h hp hne).ok_true_iff]

-- A directory that is not gone into because the exclude's star takes nothing after its slash.
def buildTree : Tree :=
  ⟨[(["src"], .directory), (["src", "App.js"], .file []), (["src", "build"], .directory),
    (["src", "build", "lib"], .directory), (["src", "build", "lib", "x.js"], .file [])]⟩

def buildSearch : Search :=
  ⟨["js", "jsx"], ["**"], ["**/build/*"]⟩

theorem findFiles_build : ¬ buildSearch.Enters ["build"] ∧
    findFiles buildTree ⟨"/", ["src"]⟩ buildSearch false = .ok ["App.js"] := by
  have hm : Glob.Matches "**/build/*" "build/" := by
    unfold Glob.Matches
    decide +kernel
  refine ⟨fun he => (he.kept _ (List.mem_singleton_self _)).right hm, ?_⟩
  have ht : buildTree.WellFormed := .ofEntries (by decide) (by decide)
  have hh : ∀ entry ∈ buildTree.entries, ∀ name ∈ entry.1, ¬ isHidden name := by decide +kernel
  have hset : ∀ text ∈ buildSearch.extensions ++ buildSearch.includes ++ buildSearch.excludes,
      '[' ∉ text.toList := by decide
  have hend : ∀ pattern ∈ buildSearch.excludes, EndsPlainly pattern := by
    simpa [buildSearch, EndsPlainly] using ⟨['*'], by decide, .inr <| by decide⟩
  have hw : buildTree.walk [] ["src"] = .ok ["src"] := by decide +kernel
  refine (@findFiles_eq_accepted _ ⟨"/", ["src"]⟩ _ _ ht (Tree.isNamed_iff.mpr <| by decide) hw
    (by decide) (fun parts e hg name hname => ?_) hset hend).trans (by decide +kernel)
  exact hh _ (ht.mem_entries_iff.mpr ⟨by simp, hg⟩) name <| List.mem_append_right _ hname

end GraphqlArtifacts
