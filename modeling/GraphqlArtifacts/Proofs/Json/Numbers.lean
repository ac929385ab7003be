import Mathlib.Data.List.TakeDrop
import GraphqlArtifacts.Json.Printer
import GraphqlArtifacts.Json.Reader

-- An integer is read back in front of any text that does not go on with a number.

namespace GraphqlArtifacts.Json

variable {c : Char} {after s : List Char} {n : Nat}

-- The text is not the rest of a number.
def EndsNumber (after : List Char) : Prop :=
  ∀ c ∈ after.head?, c.isDigit = false ∧ c ≠ '.' ∧ c ≠ 'e' ∧ c ≠ 'E'

theorem isDigit_of_mem_toDigits : ∀ c ∈ Nat.toDigits 10 n, c.isDigit :=
  fun _ hc => Nat.isDigit_of_mem_toDigits (by decide) (by decide) hc

theorem digitsValue_toDigits (n : Nat) : digitsValue (Nat.toDigits 10 n) = n := by
  have hdigit : ∀ n < 10, (Nat.digitChar n).toNat - '0'.toNat = n := by decide
  induction n using Nat.strongRecOn
  case ind n hi =>
    rw [Nat.toDigits_eq_if (by decide)]
    split
    case isTrue h => simpa [digitsValue] using hdigit n h
    case isFalse h =>
      have hv := hi (n / 10) (by omega)
      have hm := hdigit (n % 10) (Nat.mod_lt _ (by decide))
      rw [digitsValue] at hv ⊢
      rw [List.foldl_append, hv, List.foldl_cons, List.foldl_nil, hm, Nat.div_add_mod]

theorem toDigits_eq_zero_or_cons (n : Nat) :
    Nat.toDigits 10 n = ['0'] ∨ ∃ c s, Nat.toDigits 10 n = c :: s ∧ c ≠ '0' := by
  have hdigit : ∀ n < 10, n ≠ 0 → Nat.digitChar n ≠ '0' := by decide
  by_cases h0 : n = 0
  case pos => exact .inl <| h0 ▸ rfl
  case neg =>
    refine .inr ?_
    induction n using Nat.strongRecOn
    case ind n hi =>
      rw [Nat.toDigits_eq_if (by decide)]
      split
      case isTrue h => exact ⟨_, [], rfl, hdigit n h h0⟩
      case isFalse h =>
        have ⟨c, s, he, hc⟩ := hi (n / 10) (by omega) (by omega)
        exact ⟨c, s ++ [_], by rw [he, List.cons_append], hc⟩

theorem integerDigits_toDigits (ha : EndsNumber after) :
    integerDigits (Nat.toDigits 10 n ++ after) = (Nat.toDigits 10 n, after) := by
  have hspan : (Nat.toDigits 10 n ++ after).span Char.isDigit = (Nat.toDigits 10 n, after) := by
    have hd : after.takeWhile Char.isDigit = [] ∧ after.dropWhile Char.isDigit = after := by
      cases after
      case nil          => exact ⟨rfl, rfl⟩
      case cons c after => simp [(ha c rfl).left]
    rw [List.span_eq_takeWhile_dropWhile, List.takeWhile_append_of_pos isDigit_of_mem_toDigits,
      List.dropWhile_append_of_pos isDigit_of_mem_toDigits, hd.left, hd.right, List.append_nil]
  cases toDigits_eq_zero_or_cons n
  case inl h =>
    rw [h]
    rfl
  case inr h =>
    obtain ⟨c, s, h, hc⟩ := h
    rw [h] at hspan ⊢
    rw [← hspan, List.cons_append]
    exact integerDigits.eq_2 _ fun _ he => hc (List.cons.inj he).left

theorem readNumber_toDigits (ha : EndsNumber after) (start : List Char) (negative : Bool) :
    readNumber start negative (Nat.toDigits 10 n ++ after) =
      .ok (.int (if negative then -(n : Int) else n), after) := by
  have hf : fractionDigits after = none :=
    fractionDigits.eq_2 _ fun d s he => (ha '.' (by simp [he])).right.left rfl
  have hx : exponentPart after = none := by
    cases after
    case nil => rfl
    case cons c after =>
      have ⟨_, _, hlower, hupper⟩ := ha c rfl
      simp [exponentPart, hlower, hupper]
  have hne : Nat.toDigits 10 n ≠ [] := Nat.toDigits_ne_nil
  rw [readNumber, integerDigits_toDigits ha]
  simp [hf, hx, digitsValue_toDigits]

theorem ne_of_isDigit {e : Char} (hc : c.isDigit) (he : e.isDigit = false) : e ≠ c := by
  grind

-- What starts with a digit is not a word, nor is it after a minus sign.
theorem readScalar_digits (hc : c.isDigit) :
    readScalar (c :: s) = readNumber (c :: s) false (c :: s) ∧
      readScalar ('-' :: c :: s) = readNumber ('-' :: c :: s) true (c :: s) := by
  have hn : 'n' ≠ c := ne_of_isDigit hc rfl
  have ht : 't' ≠ c := ne_of_isDigit hc rfl
  have hf : 'f' ≠ c := ne_of_isDigit hc rfl
  have hN : 'N' ≠ c := ne_of_isDigit hc rfl
  have hI : 'I' ≠ c := ne_of_isDigit hc rfl
  have hm : '-' ≠ c := ne_of_isDigit hc rfl
  constructor
  · simp only [readScalar, wordValues, afterWord?]
    simp [hn, ht, hf, hN, hI, hm]
    split
    case h_1 he => exact absurd (List.cons.inj he).left hm.symm
    case h_2 => rfl
  · simp [readScalar, wordValues, afterWord?, hI]

theorem toList_toString (n : Int) : (toString n).toList =
    if 0 ≤ n then Nat.toDigits 10 n.toNat else '-' :: Nat.toDigits 10 (-n).toNat := by
  rw [Int.toString_eq_repr, Int.repr_eq_if]
  split <;> simp [Nat.toList_repr]

theorem exists_toDigits_cons (n : Nat) : ∃ c s, Nat.toDigits 10 n = c :: s ∧ c.isDigit := by
  have ⟨c, s, h⟩ := List.exists_cons_of_ne_nil (Nat.toDigits_ne_nil (n := n) (b := 10))
  exact ⟨c, s, h, isDigit_of_mem_toDigits (n := n) c (by simp [h])⟩

theorem readScalar_int (ha : EndsNumber after) (n : Int) :
    readScalar ((toString n).toList ++ after) = .ok (.int n, after) := by
  rw [toList_toString]
  split
  case isTrue h =>
    have ⟨c, s, hs, hc⟩ := exists_toDigits_cons n.toNat
    have hn := readNumber_toDigits (n := n.toNat) ha
    rw [hs, List.cons_append] at hn ⊢
    rw [(readScalar_digits hc).left, hn]
    simp only [Bool.false_eq_true, if_false, Int.toNat_of_nonneg h]
  case isFalse h =>
    have ⟨c, s, hs, hc⟩ := exists_toDigits_cons (-n).toNat
    have hn := readNumber_toDigits (n := (-n).toNat) ha
    rw [hs, List.cons_append] at hn
    rw [hs, List.cons_append, List.cons_append, (readScalar_digits hc).right, hn]
    simp
    omega

end GraphqlArtifacts.Json
