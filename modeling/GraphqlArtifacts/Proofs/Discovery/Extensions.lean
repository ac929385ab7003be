import GraphqlArtifacts.Discovery.Search
import GraphqlArtifacts.Proofs.Glob.Alternatives
import GraphqlArtifacts.Proofs.Glob.Matching
import GraphqlArtifacts.Proofs.Glob.Filter

namespace GraphqlArtifacts

open Regex

namespace Glob

def special : List Char :=
  ['/', '|', '(', ')', '{', '}', '[', ']', '*', '?']

-- A text without slashes, wildcards and brackets.
def IsPlain (s : List Char) : Prop :=
  ∀ c ∈ s, c ∉ special

instance : DecidablePred IsPlain :=
  fun s => List.decidableBAll (· ∉ special) s

variable {s u v part rest text : List Char} {c : Char} {fuel : Nat} {leading : Bool} {r : Regex}
  {texts parts extensions : List (List Char)} {fits : List Char → List Char → Prop}

theorem IsPlain.not_mem (h : IsPlain s) (hc : c ∈ special) : c ∉ s :=
  fun hm => h c hm hc

theorem isPlain_cons : IsPlain (c :: s) ↔ c ∉ special ∧ IsPlain s :=
  List.forall_mem_cons

theorem readPieces_of_isPlain (h : IsPlain s) (hf : s.length ≤ fuel) :
    readPieces fuel leading s = s.map .char := by
  induction s generalizing fuel leading
  case nil => cases fuel <;> rfl
  case cons c s hi =>
    obtain ⟨fuel, rfl⟩ : ∃ n, fuel = n + 1 := ⟨fuel - 1, by simp at hf; omega⟩
    have ⟨hc, hs⟩ := isPlain_cons.mp h
    have ⟨p, after, he, _, hcase⟩ := readPieces_cons fuel leading c s
    obtain ⟨_, _, _, _, _, hg | rfl⟩ | ⟨_, _, rfl⟩ | ⟨rfl, rfl⟩ := hcase
    case inl.inl => exact absurd hg <| hs.not_mem (by decide)
    case inl.inr => exact absurd (by decide) hc
    case inr.inl => exact absurd (by decide) hc
    case inr.inr =>
      have hstar : c ≠ '*' := by
        rintro rfl
        exact hc (by decide)
      have hquestion : c ≠ '?' := by
        rintro rfl
        exact hc (by decide)
      rw [he, hi hs (by simpa using hf)]
      simp [plainPiece, hstar, hquestion]

theorem IsPlain.isUncut (h : IsPlain s) : IsUncut '|' s := by
  intro c hm
  have hc := h c hm
  simp only [special, List.mem_cons, not_or] at hc
  simp [depthAfter, hc]

-- The last segment of the pattern of a set's files.
def filePattern (extensions : List (List Char)) : List Char :=
  ['*', '.', '+', '('] ++ ['|'].intercalate extensions ++ [')']

theorem readPieces_filePattern (hn : extensions ≠ [])
    (h : ∀ extension ∈ extensions, IsPlain extension) :
    readPieces (filePattern extensions).length true (filePattern extensions) =
      [.anyRun true, .char '.', .group .atLeastOnce (extensions.map (·.map .char))] := by
  have hsplit : splitClosing '(' ')' 0 (['|'].intercalate extensions ++ [')']) =
      some (['|'].intercalate extensions, []) :=
    splitClosing_of_not_mem (by decide)
      (not_mem_intercalate (fun e he => (h e he).not_mem (by decide)) (by decide))
      (not_mem_intercalate (fun e he => (h e he).not_mem (by decide)) (by decide))
  have hplain (n : Nat) (hle : (['|'].intercalate extensions).length ≤ n) :
      extensions.map (readPieces n false) = extensions.map (·.map .char) :=
    List.map_congr_left fun e he =>
      readPieces_of_isPlain (h e he) <| Nat.le_trans (length_le_intercalate '|' he) hle
  have hcut := splitTopLevel_intercalate '|' (by decide) hn fun e he => (h e he).isUncut
  simp [filePattern, readPieces, Quantifier.ofSign?, hsplit, hcut, hplain]

theorem chars_expression (s : List Char) :
    ∃ r, piecesExpression? (s.map .char) = some r ∧ ∀ u v, r.Takes u v ↔ u = s := by
  induction s
  case nil => exact ⟨_, rfl, by simp⟩
  case cons c s hi =>
    have ⟨r, hr, ht⟩ := hi
    refine ⟨.cat (.char c) r, by simp [piecesExpression?, Piece.expression?, hr], fun u v => ?_⟩
    simp [takes_cat_iff, ht]

theorem alternatives_expression (texts : List (List Char)) :
    ∃ rs, expressions? (texts.map (·.map .char)) = some rs ∧ (rs = [] ↔ texts = []) ∧
      ∀ u v, (∃ r ∈ rs, r.Takes u v) ↔ u ∈ texts := by
  induction texts
  case nil => exact ⟨[], rfl, by simp⟩
  case cons text texts hi =>
    have ⟨rs, hrs, _, ht⟩ := hi
    have ⟨r, hr, htext⟩ := chars_expression text
    exact ⟨r :: rs, by simp [expressions?, hr, hrs], by simp [ht, htext]⟩

theorem takes_plus_iff (h : ∀ u v, r.Takes u v ↔ u ∈ texts) : r.plus.Takes u v ↔
    ∃ taken : List (List Char), taken ≠ [] ∧ (∀ text ∈ taken, text ∈ texts) ∧
      u = taken.flatten := by
  constructor
  case mp =>
    intro hu
    obtain ⟨first, rest, rfl, hf, hr⟩ := takes_cat_iff.mp hu
    obtain ⟨taken, ht, rfl⟩ : ∃ taken : List (List Char), (∀ text ∈ taken, text ∈ texts) ∧
        rest = taken.flatten := by
      refine hr.star_induction (P := fun rest => ∃ taken : List (List Char),
        (∀ text ∈ taken, text ∈ texts) ∧ rest = taken.flatten) ⟨[], by simp, rfl⟩ ?_
      rintro u _ hu _ ⟨taken, ht, rfl⟩
      exact ⟨u :: taken, List.forall_mem_cons.mpr ⟨(h _ _).mp hu, ht⟩, by simp⟩
    exact ⟨first :: taken, by simp, List.forall_mem_cons.mpr ⟨(h _ _).mp hf, ht⟩, by simp⟩
  case mpr =>
    rintro ⟨taken, hn, ht, rfl⟩
    obtain ⟨first, rest, rfl⟩ := List.exists_cons_of_ne_nil hn
    rw [List.forall_mem_cons] at ht
    refine .cat ((h _ _).mpr ht.left) ?_
    have hrest := ht.right
    clear ht hn
    induction rest
    case nil => exact .stop
    case cons next rest hi =>
      rw [List.forall_mem_cons] at hrest
      exact .more ((h _ _).mpr hrest.left) (hi hrest.right)

section

variable (hn : extensions ≠ []) (h : ∀ extension ∈ extensions, IsPlain extension)

include h

theorem not_mem_filePattern (hc : c = '/' ∨ c = '[') : c ∉ filePattern extensions := by
  obtain rfl | rfl := hc
  case inl =>
    simp [filePattern, not_mem_intercalate fun e he => (h e he).not_mem (c := '/') (by decide)]
  case inr =>
    simp [filePattern, not_mem_intercalate fun e he => (h e he).not_mem (c := '[') (by decide)]

include hn

theorem filePattern_expression : ∃ r a, piecesExpression? (readPieces
      (filePattern extensions).length true (filePattern extensions)) = some r ∧
    r = .cat (.cat .notDot (.star (.one .notSlash)))
      (.cat (.char '.') (.cat (Regex.plus a) .empty)) ∧
    ∀ u v, a.Takes u v ↔ u ∈ extensions := by
  have ⟨rs, hrs, hempty, ht⟩ := alternatives_expression extensions
  refine ⟨_, .altAll rs, ?_, rfl, fun u v => ?_⟩
  · simp [readPieces_filePattern hn h, piecesExpression?, Piece.expression?, hrs, guardExpression,
      Quantifier.apply]
  · simp [takes_altAll_iff, hempty, hn, ht]

-- A name has the form of a set's files if one or more of the extensions end it, after a dot.
theorem fits_filePattern_iff (hp : '/' ∉ part) :
    Fits (filePattern extensions) part ↔ ¬ IsHidden part ∧ ∃ run taken, taken ≠ [] ∧
      (∀ extension ∈ taken, extension ∈ extensions) ∧ part = run ++ '.' :: taken.flatten := by
  have hslash : '/' ∉ filePattern extensions := not_mem_filePattern h (.inl rfl)
  have hset : sets (filePattern extensions) = [] := sets_eq_nil <| not_mem_filePattern h (.inr rfl)
  have hl := @leaves_inside (filePattern extensions) (filePattern extensions) (by simp [hset])
    (by simp [dropDotSlash_of_not_mem hslash, splitSlashes_of_not_mem hslash])
  have ⟨r, hr, _, hf⟩ := segment_expression hslash (by simp [filePattern]) hl
  obtain ⟨r', a, hr', rfl, ha⟩ := filePattern_expression hn h
  obtain rfl := Option.some.inj <| hr'.symm.trans hr
  simp only [hf, takes_cat_iff, takes_notDot_iff, takes_anyRun_iff, takes_char_iff,
    takes_plus_iff ha, takes_empty_iff, IsHidden]
  constructor
  case mp =>
    rintro ⟨_, _, rfl, ⟨_, run, rfl, ⟨rfl, hd⟩, _⟩, _, _, rfl, rfl, _, _, rfl,
      ⟨taken, ht, hm, rfl⟩, rfl⟩
    exact ⟨by simpa using hd, run, taken, ht, hm, by simp⟩
  case mpr =>
    rintro ⟨hd, run, taken, ht, hm, rfl⟩
    refine ⟨run, _, rfl, ⟨[], run, rfl, ⟨rfl, by simpa using hd⟩, ?_⟩, ['.'], _, rfl, rfl,
      taken.flatten, [], by simp, ⟨taken, ht, hm, rfl⟩, rfl⟩
    exact fun hm => hp <| List.mem_append_left _ hm

end

-- Patterns of all files below directories

section

variable {before dirs : List (List Char)} {last : List Char} (hd : text ≠ ['*', '*'])
  (hf : fits text last → ¬ IsHidden last) (hne : ∀ part ∈ dirs, part ≠ [])

include hd hf hne

theorem cuts_globstar :
    Cuts fits [['*', '*'], text] (dirs ++ [last]) ↔
      Cuts fits [['*', '*']] (dirs ++ [last]) ∧ fits text last := by
  have hlast {later : List (List Char)} : Cuts fits [text] later ↔
      ∃ part, later = [part] ∧ fits text part := by
    simp [Cuts, hd]
  rw [cuts_anyDepth (by simp), cuts_last]
  constructor
  case mp =>
    rintro ⟨taken, _, hparts, ht, hc⟩
    obtain ⟨part, rfl, hfit⟩ := hlast.mp hc
    obtain ⟨rfl, hp⟩ := List.append_inj' hparts rfl
    obtain rfl : last = part := by simpa using hp
    refine ⟨⟨by simp, List.forall_mem_append.mpr ⟨fun part hm => (ht part hm).right, ?_⟩⟩, hfit⟩
    simpa using hf hfit
  case mpr =>
    rintro ⟨⟨_, hh⟩, hfit⟩
    have hlast := hlast.mpr ⟨last, rfl, hfit⟩
    refine ⟨dirs, [last], rfl, fun part hm => ⟨hne part hm, hh part ?_⟩, hlast⟩
    exact List.mem_append_left _ hm

theorem cuts_globstar_append :
    Cuts fits (before ++ [['*', '*'], text]) (dirs ++ [last]) ↔
      Cuts fits (before ++ [['*', '*']]) (dirs ++ [last]) ∧ fits text last := by
  induction before generalizing dirs
  case nil => exact cuts_globstar hd hf hne
  case cons first before hi =>
    have hlater {taken later : List (List Char)} (h : dirs ++ [last] = taken ++ later) :
        Cuts fits (before ++ [['*', '*'], text]) later ↔
          Cuts fits (before ++ [['*', '*']]) later ∧ fits text last := by
      obtain rfl | ⟨rest, last', rfl⟩ := later.eq_nil_or_concat'
      case inl =>
        exact iff_of_false (fun hc => cuts_ne_nil (by simp) hc rfl)
          (fun hc => cuts_ne_nil (by simp) hc.left rfl)
      case inr =>
        rw [← List.append_assoc] at h
        obtain ⟨rfl, hl⟩ := List.append_inj' h rfl
        obtain rfl : last = last' := by simpa using hl
        exact hi fun part hm => hne part <| List.mem_append_right _ hm
    rw [List.cons_append, List.cons_append]
    by_cases hfirst : first = ['*', '*']
    case pos =>
      subst hfirst
      rw [cuts_anyDepth (by simp), cuts_anyDepth (by simp)]
      simp only [← exists_and_right, and_assoc]
      exact exists₂_congr fun taken later => and_congr_right fun h => and_congr_right' (hlater h)
    case neg =>
      rw [cuts_pieces hfirst, cuts_pieces hfirst]
      simp only [← exists_and_right, and_assoc]
      exact exists₂_congr fun part later => and_congr_right fun h =>
        and_congr_right' (@hlater [part] later h)

end

theorem dropDotSlash_append (h : u ≠ ['.']) :
    dropDotSlash (u ++ '/' :: v) = dropDotSlash u ++ '/' :: v := by
  rcases u with _ | ⟨c, _ | ⟨d, u⟩⟩
  case nil => rfl
  case cons.nil =>
    have hc : c ≠ '.' := by simpa using h
    simp [dropDotSlash, hc]
  case cons.cons =>
    by_cases hc : c = '.' ∧ d = '/'
    case pos => simp [hc, dropDotSlash]
    case neg =>
      unfold dropDotSlash
      split <;> split <;> simp_all

section

variable {pattern path : String}

theorem compiles_of_ordinary (h : ∀ body ∈ sets pattern.toList, IsOrdinary body) :
    Compiles pattern := by
  have ⟨b, hb, _⟩ := @accepts_ordinary_iff _ "" h
  exact compiles_of_accepts hb

theorem compiles_of_not_mem (h : '[' ∉ pattern.toList) : Compiles pattern :=
  compiles_of_ordinary <| by simp [sets_eq_nil h]

theorem matches_ordinary_iff (h : ∀ body ∈ sets pattern.toList, IsOrdinary body) :
    Matches pattern path ↔
      Cuts Fits (splitSlashes (dropDotSlash pattern.toList)) (splitSlashes path.toList) := by
  have ⟨b, hb, hc⟩ := @accepts_ordinary_iff _ path h
  rw [Matches, hb, Except.ok.injEq, hc]

theorem matches_iff_cuts (h : '[' ∉ pattern.toList) : Matches pattern path ↔
    Cuts Fits (splitSlashes (dropDotSlash pattern.toList)) (splitSlashes path.toList) :=
  matches_ordinary_iff <| by simp [sets_eq_nil h]

end

-- What a pattern that ends in a globstar matches has a last part that is not hidden.
theorem not_isHidden_of_cuts {before parts : List (List Char)} {last : List Char}
    (h : Cuts fits (before ++ [['*', '*']]) (parts ++ [last])) : ¬ IsHidden last := by
  suffices hs : ∀ parts, Cuts fits (before ++ [['*', '*']]) parts → ∀ last,
      parts.getLast? = some last → ¬ IsHidden last from hs _ h last (by simp)
  clear h
  intro parts h last hl
  induction before generalizing parts
  case nil => exact (cuts_last.mp h).right last <| List.mem_of_getLast? hl
  case cons first before hi =>
    have hlater {taken later : List (List Char)} (hp : parts = taken ++ later)
        (hc : Cuts fits (before ++ [['*', '*']]) later) : ¬ IsHidden last := by
      refine hi later hc ?_
      rwa [hp, List.getLast?_append_of_ne_nil _ <| cuts_ne_nil (by simp) hc] at hl
    rw [List.cons_append] at h
    by_cases hfirst : first = ['*', '*']
    case pos =>
      subst hfirst
      have ⟨taken, later, hp, _, hc⟩ := (cuts_anyDepth (by simp)).mp h
      exact hlater hp hc
    case neg =>
      have ⟨part, later, hp, _, hc⟩ := (cuts_pieces hfirst).mp h
      exact @hlater [part] later hp hc

section

variable {directory path : String} {dirs : List (List Char)} {last : List Char}
  (hset : '[' ∉ directory.toList)
  (hend : (splitSlashes (dropDotSlash directory.toList)).getLast? = some ['*', '*'])
  (hpath : splitSlashes path.toList = dirs ++ [last])

include hset hend hpath

theorem not_isHidden_of_matches (hm : Matches directory path) : ¬ IsHidden last := by
  have ⟨before, hb⟩ := List.getLast?_eq_some_iff.mp hend
  rw [matches_iff_cuts hset, hb, hpath] at hm
  exact not_isHidden_of_cuts hm

-- A pattern that ends in a globstar, and the one for the files of a set below it.
theorem matches_files_iff (hn : extensions ≠ []) (h : ∀ extension ∈ extensions, IsPlain extension)
    (hslash : '/' ∉ last) (hne : ∀ part ∈ dirs, part ≠ []) :
    Matches (directory ++ String.ofList ('/' :: filePattern extensions)) path ↔
      Matches directory path ∧ Fits (filePattern extensions) last := by
  have ⟨before, hb⟩ := List.getLast?_eq_some_iff.mp hend
  have hslash' : '/' ∉ filePattern extensions := not_mem_filePattern h (.inl rfl)
  have hset' : '[' ∉ filePattern extensions := not_mem_filePattern h (.inr rfl)
  have hdot : directory.toList ≠ ['.'] := by
    intro hdot
    rw [hdot, show splitSlashes (dropDotSlash ['.']) = [['.']] from rfl] at hend
    simp at hend
  rw [matches_iff_cuts (by simp [hset, hset']), matches_iff_cuts hset, String.toList_append,
    String.toList_ofList, dropDotSlash_append hdot, splitSlashes_join, hb, hpath,
    splitSlashes_of_not_mem hslash', List.append_assoc, List.singleton_append]
  refine cuts_globstar_append (by simp [filePattern]) (fun hf => ?_) hne
  exact ((fits_filePattern_iff hn h hslash).mp hf).left

end

end Glob

end GraphqlArtifacts
