import Mathlib.Data.List.TakeWhile
import GraphqlArtifacts.Text.CharClass

namespace GraphqlArtifacts

variable {c c' : Char} {word s : List Char}

theorem trimBlank_eq_nil_iff : trimBlank s = [] ↔ ∀ c ∈ s, isBlank c := by
  constructor
  case mpr =>
    intro h
    simp [trimBlank, List.dropWhile_eq_nil_iff.mpr h]
  case mp =>
    intro h
    have hd : s.dropWhile isBlank = [] := by
      by_contra hne
      have hall : ∀ c ∈ s.dropWhile isBlank, isBlank c := by
        simpa [trimBlank, List.dropWhile_eq_nil_iff] using h
      have hhead := List.head_dropWhile_not isBlank hne
      rw [hall _ <| List.head_mem hne] at hhead
      exact Bool.false_ne_true hhead.symm
    exact List.dropWhile_eq_nil_iff.mp hd

theorem not_isDigit_of_isBlank (h : isBlank c) : c.isDigit = false := by
  by_contra hd
  have hd : '0'.toNat ≤ c.toNat ∧ c.toNat ≤ '9'.toNat := by
    simpa [Char.isDigit, UInt32.le_iff_toNat_le] using hd
  simp [isBlank, CharClass.Ranges.contains, CharClass.blankRanges] at h hd
  omega

theorem ne_of_isBlank (h : isBlank c) (h' : isBlank c' = false) : c' ≠ c := by
  rintro rfl
  exact Bool.false_ne_true <| h'.symm.trans h

theorem holdsText_iff : holdsText word s ↔ word <:+: s := by
  induction s
  case nil => simp [holdsText]
  case cons c s hi => simp [holdsText, hi, List.infix_cons_iff]

end GraphqlArtifacts
