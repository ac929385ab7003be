import GraphqlArtifacts.Proofs.Files.Path
import GraphqlArtifacts.Proofs.Glob.Regex

namespace GraphqlArtifacts

open Regex

-- Texts between slashes

namespace Glob

variable {c : Char} {s u v part : List Char} {parts taken later names : List (List Char)}

@[simp]
theorem splitSlashes_ne_nil : splitSlashes s ≠ [] := by
  have ⟨part, parts, h⟩ := exists_splitSlashes s
  simp [h]

theorem splitSlashes_slash : splitSlashes ('/' :: s) = [] :: splitSlashes s := by
  simp [splitSlashes]

theorem splitSlashes_append_slash (h : '/' ∉ u) :
    splitSlashes (u ++ '/' :: v) = u :: splitSlashes v := by
  rw [splitSlashes_append h splitSlashes_slash, List.append_nil]

theorem splitSlashes_flatMap (h : ∀ name ∈ names, '/' ∉ name) :
    splitSlashes (names.flatMap (· ++ ['/']) ++ v) = names ++ splitSlashes v := by
  induction names
  case nil => rfl
  case cons name names hi =>
    rw [List.forall_mem_cons] at h
    simp [splitSlashes_append_slash h.left, hi h.right]

-- A text goes on up to its first slash, if it has one.
theorem exists_first (s : List Char) : '/' ∉ s ∨ ∃ u v, '/' ∉ u ∧ s = u ++ '/' :: v := by
  by_cases h : '/' ∈ s
  case neg => exact .inl h
  case pos =>
    have ⟨u, v, hs, hu⟩ := List.eq_append_cons_of_mem h
    exact .inr ⟨u, v, hu, hs⟩

-- Induction on the number of slashes in a text.
theorem slash_induction {P : List Char → Prop} (one : ∀ {s}, '/' ∉ s → P s)
    (more : ∀ {u v}, '/' ∉ u → P v → P (u ++ '/' :: v)) (s : List Char) : P s := by
  induction hn : s.length using Nat.strongRecOn generalizing s
  case ind n hi =>
    obtain hs | ⟨u, v, hu, rfl⟩ := exists_first s
    case inl => exact one hs
    case inr => exact more hu <| hi v.length (by simp [← hn]; omega) v rfl

theorem splitSlashes_join (u v : List Char) :
    splitSlashes (u ++ '/' :: v) = splitSlashes u ++ splitSlashes v := by
  induction u using slash_induction
  case one hu =>
    rw [splitSlashes_append_slash hu, splitSlashes_of_not_mem hu, List.singleton_append]
  case more u u' hu hi =>
    rw [List.append_assoc, List.cons_append, splitSlashes_append_slash hu,
      splitSlashes_append_slash hu, hi, List.cons_append]

theorem slash_not_mem (h : part ∈ splitSlashes s) : '/' ∉ part := by
  induction s using slash_induction
  case one hs =>
    rw [splitSlashes_of_not_mem hs, List.mem_singleton] at h
    exact h ▸ hs
  case more hu hi =>
    rw [splitSlashes_append_slash hu] at h
    obtain rfl | h := List.mem_cons.mp h
    · exact hu
    · exact hi h

theorem splitSlashes_subset (h : part ∈ splitSlashes s) : part ⊆ s := by
  induction s using slash_induction
  case one hs =>
    rw [splitSlashes_of_not_mem hs, List.mem_singleton] at h
    exact h ▸ List.Subset.refl _
  case more u v hu hi =>
    rw [splitSlashes_append_slash hu] at h
    obtain rfl | h := List.mem_cons.mp h
    · exact List.subset_append_left ..
    · exact List.Subset.trans (hi h) <| List.Subset.trans (List.subset_cons_self ..) <|
        List.subset_append_right ..

theorem intercalate_splitSlashes (s : List Char) : ['/'].intercalate (splitSlashes s) = s := by
  induction s using slash_induction
  case one hs => simp [splitSlashes_of_not_mem hs]
  case more u v hu hi =>
    have ⟨part, parts, hv⟩ := exists_splitSlashes v
    rw [splitSlashes_append_slash hu]
    rw [hv] at hi ⊢
    simp [List.intercalate_cons_cons, hi]

theorem splitSlashes_intercalate (hn : parts ≠ []) (h : ∀ part ∈ parts, '/' ∉ part) :
    splitSlashes (['/'].intercalate parts) = parts := by
  induction parts
  case nil => contradiction
  case cons part parts hi =>
    rw [List.forall_mem_cons] at h
    cases parts
    case nil => simpa using splitSlashes_of_not_mem h.left
    case cons next parts =>
      rw [List.intercalate_cons_cons, List.append_assoc, List.singleton_append,
        splitSlashes_append_slash h.left, hi (by simp) h.right]

-- A text is put together again from its first parts and a text of the later ones.
theorem eq_flatMap_append (h : splitSlashes s = taken ++ later) (hl : later ≠ []) :
    s = taken.flatMap (· ++ ['/']) ++ ['/'].intercalate later := by
  rw [← intercalate_splitSlashes s, h]
  clear h
  induction taken
  case nil => rfl
  case cons name taken hi =>
    have ⟨next, rest, hr⟩ := List.exists_cons_of_ne_nil (l := taken ++ later) (by simp [hl])
    rw [List.cons_append, hr, List.intercalate_cons_cons, ← hr, hi]
    simp

-- A part of a path is hidden if it starts with a dot.
def IsHidden (part : List Char) : Prop :=
  part.head? = some '.'

theorem isHidden_append_slash : IsHidden (u ++ '/' :: v) ↔ IsHidden u := by
  cases u <;> simp [IsHidden]

-- What the wildcards over directories take

theorem contains_notSlash : CharSet.notSlash.contains c ↔ c ≠ '/' := by
  simp only [CharSet.notSlash, CharSet.contains, List.any_cons, List.any_nil, Bool.or_false,
    Bool.bne_true, Bool.not_eq_true', Bool.and_eq_false_iff, decide_eq_false_iff_not]
  constructor
  case mp =>
    rintro h rfl
    simp at h
  case mpr =>
    intro h
    by_contra hc
    simp only [not_or, not_not] at hc
    exact h <| Char.le_antisymm hc.right hc.left

@[simp]
theorem takes_anyRun_iff : (Regex.star (.one .notSlash)).Takes u v ↔ '/' ∉ u := by
  constructor
  case mp =>
    intro h
    refine h.star_induction (P := fun u => '/' ∉ u) (by simp) fun ha _ hi => ?_
    obtain ⟨c, rfl, hc⟩ := takes_one_iff.mp ha
    simpa [hi] using Ne.symm <| contains_notSlash.mp hc
  case mpr =>
    intro h
    induction u
    case nil => exact .stop
    case cons c u hi =>
      simp only [List.mem_cons, not_or] at h
      exact .more (u := [c]) (.one <| contains_notSlash.mpr <| Ne.symm h.left) (hi h.right)

theorem takes_directory_iff :
    (Regex.cat .notDot (.cat (Regex.plus (.one .notSlash)) (.char '/'))).Takes u v ↔
      ∃ name, u = name ++ ['/'] ∧ name ≠ [] ∧ '/' ∉ name ∧ ¬ IsHidden name := by
  simp only [takes_cat_iff, takes_notDot_iff, Regex.plus, takes_char_iff, takes_anyRun_iff,
    takes_one_iff, contains_notSlash]
  constructor
  case mp =>
    rintro ⟨_, _, rfl, ⟨rfl, hd⟩, _, _, rfl, ⟨_, _, rfl, ⟨c, rfl, hc⟩, hr⟩, rfl⟩
    refine ⟨_, rfl, by simp, by simpa [Ne.symm hc] using hr, ?_⟩
    simpa [IsHidden] using hd
  case mpr =>
    rintro ⟨name, rfl, hn, hs, hd⟩
    obtain ⟨c, rest, rfl⟩ := List.exists_cons_of_ne_nil hn
    simp only [List.mem_cons, not_or] at hs
    refine ⟨[], _, rfl, ⟨rfl, by simpa [IsHidden] using hd⟩, c :: rest, _, rfl, ?_, rfl⟩
    exact ⟨[c], rest, rfl, ⟨c, rfl, Ne.symm hs.left⟩, hs.right⟩

theorem takes_anyDirectories_iff : anyDirectories.Takes u v ↔
    ∃ names : List (List Char), u = names.flatMap (· ++ ['/']) ∧
      ∀ name ∈ names, name ≠ [] ∧ '/' ∉ name ∧ ¬ IsHidden name := by
  constructor
  case mp =>
    intro h
    refine h.star_induction (P := fun u => ∃ names : List (List Char),
      u = names.flatMap (· ++ ['/']) ∧ ∀ name ∈ names, name ≠ [] ∧ '/' ∉ name ∧ ¬ IsHidden name)
      ⟨[], by simp⟩ ?_
    rintro _ _ ha _ ⟨names, rfl, hn⟩
    obtain ⟨name, rfl, hname⟩ := takes_directory_iff.mp ha
    exact ⟨name :: names, by simp, List.forall_mem_cons.mpr ⟨hname, hn⟩⟩
  case mpr =>
    rintro ⟨names, rfl, h⟩
    induction names
    case nil => exact .stop
    case cons name names hi =>
      rw [List.forall_mem_cons] at h
      rw [List.flatMap_cons]
      exact .more (takes_directory_iff.mpr ⟨name, rfl, h.left⟩) (hi h.right)

-- Each further part of a path comes after a slash.
theorem takes_furtherPart_iff :
    (Regex.cat (.char '/') (.cat .notDot (.star (.one .notSlash)))).Takes u v ↔
      ∃ part, u = '/' :: part ∧ '/' ∉ part ∧ ¬ IsHidden (part ++ v) := by
  simp only [takes_cat_iff, takes_char_iff, takes_notDot_iff, takes_anyRun_iff]
  constructor
  case mp =>
    rintro ⟨_, _, rfl, rfl, _, part, rfl, ⟨rfl, hd⟩, hp⟩
    exact ⟨part, rfl, hp, hd⟩
  case mpr =>
    rintro ⟨part, rfl, hp, hd⟩
    exact ⟨_, part, rfl, rfl, [], part, rfl, ⟨rfl, hd⟩, hp⟩

theorem takes_furtherParts_iff :
    (Regex.star (.cat (.char '/') (.cat .notDot (.star (.one .notSlash))))).Takes u [] ↔
      u = [] ∨ ∃ rest, u = '/' :: rest ∧ ∀ part ∈ splitSlashes rest, ¬ IsHidden part := by
  constructor
  case mp =>
    intro h
    refine h.star_induction (P := fun u => u = [] ∨ ∃ rest, u = '/' :: rest ∧
      ∀ part ∈ splitSlashes rest, ¬ IsHidden part) (.inl rfl) fun ha _ hi => .inr ?_
    obtain ⟨part, rfl, hp, hd⟩ := takes_furtherPart_iff.mp ha
    obtain rfl | ⟨rest, rfl, hr⟩ := hi
    case inl =>
      refine ⟨part, by simp, ?_⟩
      simpa [splitSlashes_of_not_mem hp] using hd
    case inr =>
      refine ⟨part ++ '/' :: rest, by simp, ?_⟩
      rw [splitSlashes_append_slash hp, List.forall_mem_cons]
      rw [List.append_nil, isHidden_append_slash] at hd
      exact ⟨hd, hr⟩
  case mpr =>
    rintro (rfl | ⟨rest, rfl, h⟩)
    case inl => exact .stop
    case inr =>
      induction rest using slash_induction
      case one rest hs =>
        rw [splitSlashes_of_not_mem hs, List.forall_mem_singleton] at h
        exact .once <| takes_furtherPart_iff.mpr ⟨rest, rfl, hs, (List.append_nil rest).symm ▸ h⟩
      case more u v hu hi =>
        rw [splitSlashes_append_slash hu, List.forall_mem_cons] at h
        refine .more (u := '/' :: u) (takes_furtherPart_iff.mpr ⟨u, rfl, hu, ?_⟩) (hi h.right)
        rw [List.append_nil, isHidden_append_slash]
        exact h.left

theorem takes_anyPath_iff : anyPath.Takes s [] ↔ ∀ part ∈ splitSlashes s, ¬ IsHidden part := by
  have hs : anyPath.Takes s [] ↔ ∃ first more, s = first ++ more ∧ ¬ IsHidden s ∧ '/' ∉ first ∧
      (more = [] ∨ ∃ rest, more = '/' :: rest ∧ ∀ part ∈ splitSlashes rest, ¬ IsHidden part) := by
    simp only [anyPath, takes_cat_iff (a := .notDot), takes_notDot_iff, takes_cat_iff
      (b := .star _), takes_furtherParts_iff, takes_anyRun_iff]
    constructor
    case mp =>
      rintro ⟨_, _, rfl, ⟨rfl, hd⟩, first, more, rfl, hf, hm⟩
      rw [List.append_nil] at hd
      exact ⟨first, more, rfl, hd, hf, hm⟩
    case mpr =>
      rintro ⟨first, more, rfl, hd, hf, hm⟩
      rw [← List.append_nil (first ++ more)] at hd
      exact ⟨[], _, rfl, ⟨rfl, hd⟩, first, more, rfl, hf, hm⟩
  rw [hs]
  constructor
  case mp =>
    rintro ⟨first, _, rfl, hd, hf, rfl | ⟨rest, rfl, hr⟩⟩
    case inl =>
      rw [List.append_nil] at hd ⊢
      simpa [splitSlashes_of_not_mem hf] using hd
    case inr =>
      rw [splitSlashes_append_slash hf, List.forall_mem_cons]
      exact ⟨mt isHidden_append_slash.mpr hd, hr⟩
  case mpr =>
    intro h
    obtain hf | ⟨first, rest, hf, rfl⟩ := exists_first s
    case inl =>
      rw [splitSlashes_of_not_mem hf, List.forall_mem_singleton] at h
      exact ⟨s, [], by simp, h, hf, .inl rfl⟩
    case inr =>
      rw [splitSlashes_append_slash hf, List.forall_mem_cons] at h
      have hd : ¬ IsHidden (first ++ '/' :: rest) := mt isHidden_append_slash.mp h.left
      exact ⟨first, _, rfl, hd, hf, .inr ⟨rest, rfl, h.right⟩⟩

end Glob

end GraphqlArtifacts
