import Mathlib.Data.List.Basic
import GraphqlArtifacts.Glob.Pattern

namespace GraphqlArtifacts.Glob

-- Alternatives that are put together with separators, and cut out again

variable {s inside rest part : List Char} {texts parts : List (List Char)}
  {c opening closing separator : Char}

theorem splitClosing_of_not_mem (h : opening ≠ closing) (ho : opening ∉ inside)
    (hc : closing ∉ inside) :
    splitClosing opening closing 0 (inside ++ closing :: rest) = some (inside, rest) := by
  induction inside
  case nil => simp [splitClosing, Ne.symm h]
  case cons c inside hi =>
    simp only [List.mem_cons, not_or] at ho hc
    simp [splitClosing, hi ho.right hc.right, Ne.symm ho.left, Ne.symm hc.left]

-- A text that is not cut: it has no separators, and no brackets around any.
def IsUncut (separator : Char) (s : List Char) : Prop :=
  ∀ c ∈ s, c ≠ separator ∧ depthAfter 0 c = 0

theorem splitTopLevel_append (h : IsUncut separator s)
    (hr : splitTopLevel separator 0 rest = part :: parts) :
    splitTopLevel separator 0 (s ++ rest) = (s ++ part) :: parts := by
  induction s
  case nil => exact hr
  case cons c s hi =>
    have ⟨⟨hc, hd⟩, hs⟩ := List.forall_mem_cons.mp h
    simp [splitTopLevel, hd, hc, hi hs]

theorem splitTopLevel_intercalate (separator : Char) (hs : depthAfter 0 separator = 0)
    (hn : texts ≠ []) (h : ∀ text ∈ texts, IsUncut separator text) :
    splitTopLevel separator 0 ([separator].intercalate texts) = texts := by
  have hnil : splitTopLevel separator 0 [] = [[]] := rfl
  have hcut (s : List Char) :
      splitTopLevel separator 0 (separator :: s) = [] :: splitTopLevel separator 0 s := by
    simp [splitTopLevel, hs]
  induction texts
  case nil => contradiction
  case cons text texts hi =>
    rw [List.forall_mem_cons] at h
    cases texts
    case nil => simpa using splitTopLevel_append h.left hnil
    case cons next texts =>
      rw [List.intercalate_cons_cons, List.append_assoc, List.singleton_append,
        splitTopLevel_append h.left (hcut _), hi (by simp) h.right, List.append_nil]

theorem not_mem_intercalate (h : ∀ text ∈ texts, c ∉ text) (hc : c ≠ separator) :
    c ∉ [separator].intercalate texts := by
  induction texts
  case nil => simp
  case cons text texts hi =>
    rw [List.forall_mem_cons] at h
    cases texts
    case nil => simpa using h.left
    case cons next texts => simpa [List.intercalate_cons_cons, h.left, hc] using hi h.right

theorem length_le_intercalate (separator : Char) (h : s ∈ texts) :
    s.length ≤ ([separator].intercalate texts).length := by
  induction texts
  case nil => cases h
  case cons text texts hi =>
    cases texts
    case nil =>
      obtain rfl : s = text := by simpa using h
      simp
    case cons next texts =>
      rw [List.intercalate_cons_cons]
      obtain rfl | h := List.mem_cons.mp h
      · simp
      · have := hi h
        simp
        omega

end GraphqlArtifacts.Glob
