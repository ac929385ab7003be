import GraphqlArtifacts.Proofs.Discovery.Scan

namespace GraphqlArtifacts

open Glob (Compiles Matches)
open Search (pathText isHidden)

section

variable {ε α β : Type} {test : α → Except ε Bool} {f : α → Except ε (Option β)} {a : α}
  {l : List α}

theorem exists_of_anyOrFault (h : anyOrFault test l = .ok true) : ∃ a ∈ l, test a = .ok true := by
  induction l
  case nil => cases h
  case cons a l hi =>
    unfold anyOrFault at h
    split at h
    case h_1 ha => exact ⟨a, List.mem_cons_self .., ha⟩
    case h_2 =>
      have ⟨b, hm, hb⟩ := hi h
      exact ⟨b, List.mem_cons_of_mem _ hm, hb⟩
    case h_3 => cases h

theorem anyOrFault_singleton : anyOrFault test [a] = test a := by
  rcases h : test a with _ | (_ | _) <;> simp [anyOrFault, h]

theorem filterMapM_ok_iff :
    (∃ l', l.filterMapM f = .ok l') ↔ ∀ a ∈ l, ∃ b, f a = .ok b := by
  induction l
  case nil => exact iff_of_true ⟨[], rfl⟩ (by simp)
  case cons a l hi =>
    rw [List.forall_mem_cons, ← hi, List.filterMapM_cons]
    cases f a
    case error => simp [bind, Except.bind]
    case ok b => cases b <;> cases l.filterMapM f <;> simp [bind, Except.bind, pure, Except.pure]

end

namespace Glob

-- The patterns that are looked at before the first faulty one match none of some paths.
def Undecided (patterns paths : List String) : Prop :=
  ∃ before pattern after, patterns = before ++ pattern :: after ∧ ¬ Compiles pattern ∧
    ∀ other ∈ before, ∀ path ∈ paths, ¬ Matches other path

variable {pattern path : String} {patterns paths rest : List String}

theorem undecided_cons : Undecided (pattern :: rest) paths ↔
    ¬ Compiles pattern ∨ (∀ path ∈ paths, ¬ Matches pattern path) ∧ Undecided rest paths := by
  constructor
  case mp =>
    rintro ⟨before, faulty, after, he, hf, hb⟩
    cases before
    case nil =>
      obtain ⟨rfl, _⟩ := List.cons_eq_cons.mp he
      exact .inl hf
    case cons first before =>
      obtain ⟨rfl, rfl⟩ := List.cons_eq_cons.mp he
      rw [List.forall_mem_cons] at hb
      exact .inr ⟨hb.left, before, faulty, after, rfl, hf, hb.right⟩
  case mpr =>
    rintro (hf | ⟨hn, before, faulty, after, rfl, hf, hb⟩)
    case inl => exact ⟨[], pattern, rest, rfl, hf, by simp⟩
    case inr => exact ⟨pattern :: before, faulty, after, rfl, hf, List.forall_mem_cons.mpr ⟨hn, hb⟩⟩

theorem not_undecided (h : ∀ pattern ∈ patterns, Compiles pattern) : ¬ Undecided patterns paths := by
  rintro ⟨before, pattern, after, rfl, hf, _⟩
  exact hf <| h pattern <| by simp

theorem accepts_of_not_compiles (h : ¬ Compiles pattern) : ∃ e, accepts pattern path = .error e := by
  rw [Compiles, Option.not_isSome_iff_eq_none] at h
  exact ⟨_, by rw [accepts, h]⟩

-- What is tested of a path or directory: whether one of some patterns matches one of some paths.
def anyMatch (patterns paths : List String) : Except InvalidPattern Bool :=
  anyOrFault (fun pattern => anyOrFault (accepts pattern) paths) patterns

theorem anyMatch_singleton :
    anyMatch patterns [path] = anyOrFault (accepts · path) patterns := by
  simp only [anyMatch, anyOrFault_singleton]

theorem exists_of_anyMatch (h : anyMatch patterns paths = .ok true) :
    ∃ pattern ∈ patterns, ∃ path ∈ paths, Matches pattern path := by
  have ⟨pattern, hm, h⟩ := exists_of_anyOrFault h
  exact ⟨pattern, hm, exists_of_anyOrFault h⟩

theorem forall_of_anyMatch (h : anyMatch patterns paths = .ok false) :
    ∀ pattern ∈ patterns, ∀ path ∈ paths, ¬ Matches pattern path := by
  intro pattern hm path hp ht
  have hf := forall_of_anyOrFault (forall_of_anyOrFault h pattern hm) path hp
  cases ht.symm.trans hf

theorem anyMatch_error_iff (hn : paths ≠ []) :
    (∃ e, anyMatch patterns paths = .error e) ↔ Undecided patterns paths := by
  induction patterns
  case nil => exact iff_of_false (by simp [anyMatch, anyOrFault]) (by simp [Undecided])
  case cons pattern rest hi =>
    obtain ⟨path, later, hp⟩ := List.exists_cons_of_ne_nil hn
    rw [undecided_cons]
    by_cases hc : Compiles pattern
    case neg =>
      obtain ⟨e, he⟩ := @accepts_of_not_compiles _ path hc
      exact iff_of_true ⟨e, by simp [anyMatch, anyOrFault, hp, he]⟩ (.inl hc)
    case pos =>
      have hd : Decides (anyOrFault (accepts pattern) paths) (∃ path ∈ paths, Matches pattern path) :=
        .anyOrFault fun _ _ => accepts_decides hc
      by_cases hm : ∃ path ∈ paths, Matches pattern path
      case pos =>
        obtain ⟨path, hp, hm⟩ := hm
        refine iff_of_false (by simp [anyMatch, anyOrFault, hd.eq_of ⟨path, hp, hm⟩]) ?_
        exact not_or.mpr ⟨not_not.mpr hc, fun h => h.left path hp hm⟩
      case neg =>
        have he : anyMatch (pattern :: rest) paths = anyMatch rest paths := by
          simp [anyMatch, anyOrFault, hd.eq_of_not hm]
        rw [he, hi]
        have hm : ∀ path ∈ paths, ¬ Matches pattern path := fun path hp h => hm ⟨path, hp, h⟩
        rw [not_not.mpr hc |> iff_false_intro, false_or, and_iff_right hm]

end Glob

open Glob (Undecided anyMatch)

variable {t : Tree} {base : Path} {place parts : List String} {s : Search} {e : Entry}
  {content : List UInt8}

namespace Search

-- A hidden directory is looked at only if hidden directories are asked for.
def IsLookedAt (s : Search) (parts : List String) : Prop :=
  isHidden (parts.getLast?.getD "") → s.filePatterns.any asksForHidden

-- A search fails at an entry that it comes to: at a directory when it asks whether to go into it,
-- at a file when it asks whether to leave it out, or then whether it is a file of the set.
inductive StumblesAt (s : Search) (parts : List String) : Entry → Prop
  | directory (hr : s.Reaches parts) (ha : s.IsLookedAt parts)
      (hu : Undecided s.excludes [pathText parts, pathText parts ++ "/"]) :
      StumblesAt s parts .directory
  | excluding {content : List UInt8} (hr : s.Reaches parts)
      (hu : Undecided s.excludes (PathFilter.withParents (pathText parts))) :
      StumblesAt s parts (.file content)
  | including {content : List UInt8} (hr : s.Reaches parts)
      (hk : ∀ pattern ∈ s.excludes, ∀ path ∈ PathFilter.withParents (pathText parts),
        ¬ Matches pattern path)
      (hu : Undecided s.filePatterns [pathText parts]) : StumblesAt s parts (.file content)

theorem not_stumblesAt (h : s.IsScannable) : ¬ s.StumblesAt parts e := by
  intro hs
  cases hs
  case directory hu => exact Glob.not_undecided h.excludes hu
  case excluding hu => exact Glob.not_undecided h.excludes hu
  case including hu => exact Glob.not_undecided h.filePatterns hu

theorem StumblesAt.reaches (h : s.StumblesAt parts e) : s.Reaches parts := by
  cases h <;> assumption

-- Going into a directory

theorem enters_of_isLookedAt (h : s.IsLookedAt parts) : s.enters parts =
    (anyMatch s.excludes [pathText parts, pathText parts ++ "/"]).map (!·) := by
  refine if_neg fun hh => ?_
  simp only [Bool.and_eq_true, Bool.not_eq_true', ← Bool.not_eq_true] at hh
  exact hh.right <| h hh.left

theorem enters_of_not_isLookedAt (h : ¬ s.IsLookedAt parts) : s.enters parts = .ok false := by
  refine if_pos ?_
  simpa [IsLookedAt] using h

theorem enters_of_true (h : s.enters parts = .ok true) : s.Enters parts := by
  by_cases ha : s.IsLookedAt parts
  case neg =>
    rw [enters_of_not_isLookedAt ha] at h
    cases h
  case pos =>
    rw [enters_of_isLookedAt ha, map_ok] at h
    obtain ⟨b, hb, hn⟩ := h
    obtain rfl : b = false := by simpa using hn
    have hk := Glob.forall_of_anyMatch hb
    exact ⟨ha, fun pattern hp => ⟨hk pattern hp _ (by simp), hk pattern hp _ (by simp)⟩⟩

theorem not_enters_of_false (h : s.enters parts = .ok false) : ¬ s.Enters parts := by
  intro he
  rw [enters_of_isLookedAt he.asked, map_ok] at h
  obtain ⟨b, hb, hn⟩ := h
  obtain rfl : b = true := by simpa using hn
  have ⟨pattern, hp, path, hpath, hmatch⟩ := Glob.exists_of_anyMatch hb
  obtain rfl | rfl : path = pathText parts ∨ path = pathText parts ++ "/" := by simpa using hpath
  · exact (he.kept pattern hp).left hmatch
  · exact (he.kept pattern hp).right hmatch

theorem enters_error_iff : (∃ e, s.enters parts = .error e) ↔
    s.IsLookedAt parts ∧ Undecided s.excludes [pathText parts, pathText parts ++ "/"] := by
  by_cases ha : s.IsLookedAt parts
  case neg => simp [enters_of_not_isLookedAt ha, ha]
  case pos =>
    rw [enters_of_isLookedAt ha, and_iff_right ha, ← Glob.anyMatch_error_iff (by simp)]
    cases anyMatch s.excludes [pathText parts, pathText parts ++ "/"] <;> simp [Except.map]

-- What it means for the first names of an entry that the search comes to it, does not, or fails.
def WayTo (s : Search) (parts : List String) (bound : Nat) : Except Glob.InvalidPattern Bool → Prop
  | .ok true  => ∀ n, 0 < n → n < bound → s.Enters (parts.take n)
  | .ok false => ∃ n, 0 < n ∧ n < bound ∧ ¬ s.Enters (parts.take n)
  | .error _  => ∃ n, 0 < n ∧ n < bound ∧ s.StumblesAt (parts.take n) .directory

-- The walk goes on once the first names are known to be no obstacle.
theorem wayTo_go {left n : Nat} (hpos : 0 < n)
    (hb : ∀ k, 0 < k → k < n → s.Enters (parts.take k)) :
    s.WayTo parts (n + left) (reaches.go s parts left n) := by
  induction left generalizing n
  case zero => exact hb
  case succ left hi =>
    unfold reaches.go
    rcases he : s.enters (parts.take n) with e | _ | _
    case error =>
      obtain ⟨ha, hu⟩ := enters_error_iff.mp ⟨e, he⟩
      refine ⟨n, hpos, by omega, .directory (fun k hk hl => ?_) ha hu⟩
      rw [List.length_take] at hl
      simpa [List.take_take, Nat.min_eq_left (show k ≤ n by omega)] using hb k hk (by omega)
    case ok.false => exact ⟨n, hpos, by omega, not_enters_of_false he⟩
    case ok.true =>
      rw [← Nat.succ_add_eq_add_succ]
      refine hi (by omega) fun k hk hl => ?_
      obtain rfl | hl := Nat.eq_or_lt_of_le (Nat.le_of_lt_succ hl)
      · exact enters_of_true he
      · exact hb k hk hl

theorem wayTo_reaches (s : Search) (hn : parts ≠ []) :
    s.WayTo parts parts.length (s.reaches parts) := by
  have hpos := List.length_pos_iff.mpr hn
  have h := @wayTo_go parts s (parts.length - 1) 1 (by omega) (by omega)
  rwa [Nat.add_sub_cancel' hpos] at h

theorem withParents_ne_nil (path : String) : PathFilter.withParents path ≠ [] := by
  simp [PathFilter.withParents]

theorem accepts_error_iff : (∃ e, s.filter.accepts (pathText parts) = .error e) ↔
    Undecided s.excludes (PathFilter.withParents (pathText parts)) ∨
      (∀ pattern ∈ s.excludes, ∀ path ∈ PathFilter.withParents (pathText parts),
        ¬ Matches pattern path) ∧ Undecided s.filePatterns [pathText parts] := by
  have hx : s.filter.isExcluded (pathText parts) =
      anyMatch s.excludes (PathFilter.withParents (pathText parts)) := rfl
  have hu := @Glob.anyMatch_error_iff s.excludes _ (withParents_ne_nil (pathText parts))
  have hi := @Glob.anyMatch_error_iff s.filePatterns [pathText parts] (by simp)
  rw [Glob.anyMatch_singleton] at hi
  rw [← hu, ← hi, PathFilter.accepts, hx]
  rcases h : anyMatch s.excludes (PathFilter.withParents (pathText parts)) with e | _ | _
  case error => simp
  case ok.false => simp [and_iff_right (Glob.forall_of_anyMatch h), filter]
  case ok.true =>
    obtain ⟨pattern, hp, path, hpath, hm⟩ := Glob.exists_of_anyMatch h
    exact iff_of_false (by simp) (by simpa using fun hk => absurd hm <| hk pattern hp path hpath)

-- A search that fails at an entry stumbles there or at a directory on the way.
theorem selects_error_iff (hn : parts ≠ []) (hr : s.reaches parts = .ok true) :
    (∃ fault, s.selects parts e = .error fault) ↔ s.StumblesAt parts e := by
  have hreach : s.Reaches parts := by
    have h := wayTo_reaches s hn
    rwa [hr] at h
  simp only [selects, hr]
  cases e
  case directory =>
    refine enters_error_iff.trans ⟨fun ⟨ha, hu⟩ => .directory hreach ha hu, fun h => ?_⟩
    cases h
    case directory ha hu => exact ⟨ha, hu⟩
  case file content =>
    refine accepts_error_iff.trans ⟨?_, fun h => ?_⟩
    case refine_1 =>
      rintro (hu | ⟨hk, hu⟩)
      · exact .excluding hreach hu
      · exact .including hreach hk hu
    case refine_2 =>
      cases h
      case excluding hu    => exact .inl hu
      case including hk hu => exact .inr ⟨hk, hu⟩

theorem selects_error (hn : parts ≠ []) (h : s.StumblesAt parts e) :
    ∃ fault, s.selects parts e = .error fault := by
  have hw := wayTo_reaches s hn
  rcases hr : s.reaches parts with fault | _ | _
  case error => exact ⟨fault, by simp [selects, hr]⟩
  case ok.false =>
    rw [hr] at hw
    have ⟨n, hpos, hlt, hne⟩ := hw
    exact absurd (h.reaches n hpos hlt) hne
  case ok.true => exact (selects_error_iff hn hr).mpr h

theorem stumbles_of_selects {fault : Glob.InvalidPattern} (hn : parts ≠ [])
    (h : s.selects parts e = .error fault) : s.StumblesAt parts e ∨
      ∃ n, 0 < n ∧ n < parts.length ∧ s.StumblesAt (parts.take n) .directory := by
  have hw := wayTo_reaches s hn
  rcases hr : s.reaches parts with fault | _ | _
  case error =>
    rw [hr] at hw
    exact .inr hw
  case ok.false => simp [selects, hr] at h
  case ok.true  => exact .inl <| (selects_error_iff hn hr).mp ⟨fault, h⟩

end Search

theorem findFiles_ok_iff_selects (hw : t.walk [] base.parts = .ok place)
    (hd : t.get? place = some .directory) : (∃ files, findFiles t base s false = .ok files) ↔
      ∀ entry ∈ t.entriesBelow place, ∃ b, s.selects entry.1 entry.2 = .ok b := by
  have hsorted (m : Except SearchFault (List String)) :
      (∃ files, (m >>= fun found => pure (sortTexts found)) = .ok files) ↔
        ∃ found, m = .ok found := by
    cases m <;> simp [bind, Except.bind, pure, Except.pure]
  simp only [findFiles, hw, hd, bne_self_eq_false, Bool.false_eq_true, if_false, pure_bind]
  rw [hsorted, filterMapM_ok_iff]
  refine forall₂_congr ?_
  rintro ⟨parts, e⟩ _
  rcases s.selects parts e with fault | _ | _
  case error    => simp [Except.mapError, bind, Except.bind]
  case ok.false => simp [Except.mapError, bind, Except.bind, pure, Except.pure]
  case ok.true =>
    cases e.isFile <;>
      simp [isIgnored, anyOrFault, Except.mapError, bind, Except.bind, pure, Except.pure]

-- An entry below a directory at which a search in it fails.
def Tree.Stumbles (t : Tree) (base : Path) (s : Search) : Prop :=
  ∃ place parts e, t.walk [] base.parts = .ok place ∧ t.get? place = some .directory ∧
    parts ≠ [] ∧ t.get? (place ++ parts) = some e ∧ s.StumblesAt parts e

-- A search without ignore files fails exactly if it comes to an entry at which it looks at a faulty
-- pattern, no earlier pattern having decided.
theorem findFiles_ok_iff (ht : t.WellFormed) :
    (∃ files, findFiles t base s false = .ok files) ↔ ¬ t.Stumbles base s := by
  cases hw : t.walk [] base.parts
  case error => simp [findFiles, hw, Tree.Stumbles, pure, Except.pure]
  case ok place =>
    by_cases hd : t.get? place = some .directory
    case neg => simp [findFiles, hw, hd, Tree.Stumbles, pure, Except.pure]
    case pos =>
      rw [findFiles_ok_iff_selects hw hd]
      constructor
      case mp =>
        rintro hall ⟨_, parts, e, hw', _, hn, hg, hs⟩
        obtain rfl := Except.ok.inj <| hw.symm.trans hw'
        obtain ⟨b, hb⟩ := hall (parts, e) <| (Tree.mem_entriesBelow ht).mpr ⟨hn, hg⟩
        obtain ⟨fault, hf⟩ := Search.selects_error hn hs
        cases hb.symm.trans hf
      case mpr =>
        rintro hnone ⟨parts, e⟩ hm
        obtain ⟨hn, hg⟩ := (Tree.mem_entriesBelow ht).mp hm
        cases hs : s.selects parts e
        case ok b => exact ⟨b, rfl⟩
        case error =>
          obtain hs | ⟨n, hpos, hlt, hs⟩ := Search.stumbles_of_selects hn hs
          case inl => exact absurd ⟨place, parts, e, hw, hd, hn, hg, hs⟩ hnone
          case inr =>
            have hsplit : place ++ parts = (place ++ parts.take n) ++ parts.drop n := by simp
            have hg' := ht.directory_above (hsplit ▸ hg) (by simpa using hlt)
            refine absurd ⟨place, parts.take n, _, hw, hd, ?_, hg', hs⟩ hnone
            simpa using ⟨by omega, hn⟩

end GraphqlArtifacts
