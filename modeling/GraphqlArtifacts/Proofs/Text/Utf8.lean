import Mathlib.Data.List.Basic
import GraphqlArtifacts.Text.Utf8

namespace GraphqlArtifacts.Utf8

variable {char : Char} {s : List Char} {a b c d : UInt8} {rest : List UInt8} {n position : Nat}

@[simp]
theorem toNat_byte (n : Nat) : (byte n).toNat = n % 256 :=
  UInt8.toNat_ofNat'

theorem isTail_iff : isTail b ↔ 0x80 ≤ b.toNat ∧ b.toNat < 0xC0 := by
  simp [isTail]

theorem length_le_encodeChars (s : List Char) : s.length ≤ (encodeChars s).length := by
  have hc (char : Char) : 1 ≤ (encodeChar char).length := by
    dsimp only [encodeChar]
    split
    · simp
    · split
      · simp
      · split <;> simp
  induction s
  case nil => simp
  case cons char s hi =>
    have := hc char
    rw [encodeChars, List.flatMap_cons, List.length_append, List.length_cons, ← encodeChars]
    omega

-- The bounds of a second byte keep out long forms, surrogates and what lies above all characters.
theorem isSecond_iff : isSecond a b ↔ 0x80 ≤ b.toNat ∧ b.toNat < 0xC0 ∧
    (a.toNat = 0xE0 → 0xA0 ≤ b.toNat) ∧ (a.toNat = 0xF0 → 0x90 ≤ b.toNat) ∧
      (a.toNat = 0xED → b.toNat < 0xA0) ∧ (a.toNat = 0xF4 → b.toNat < 0x90) := by
  have h (b : UInt8) : a = b ↔ a.toNat = b.toNat :=
    UInt8.toNat_inj.symm
  simp only [isSecond, Bool.and_eq_true, decide_eq_true_eq, h, UInt8.reduceToNat]
  grind

theorem toNat_valid (char : Char) :
    char.toNat < 0xD800 ∨ 0xDFFF < char.toNat ∧ char.toNat < 0x110000 :=
  char.valid

theorem ofNat_of_eq (char : Char) (h : n = char.toNat) : Char.ofNat n = char :=
  h ▸ Char.ofNat_toNat char

theorem decodeFrom_one (ha : a.toNat < 0x80) : decodeFrom position (a :: rest) =
    (decodeFrom (position + 1) rest).map (Char.ofNat a.toNat :: ·) := by
  rw [decodeFrom.eq_def]
  simp [ha]

theorem decodeFrom_two (hl : 0xC2 ≤ a.toNat) (hu : a.toNat < 0xE0) (hb : isSecond a b) :
    decodeFrom position (a :: b :: rest) = (decodeFrom (position + 2) rest).map
      (Char.ofNat (a.toNat % 0x20 * 0x40 + low6 b) :: ·) := by
  rw [decodeFrom.eq_def]
  have h₁ : ¬ a.toNat < 0x80 := by omega
  have h₂ : ¬ (a.toNat < 0xC2 ∨ 0xF5 ≤ a.toNat) := by omega
  simp only [h₁, h₂, hb, hu, Bool.not_true, Bool.false_eq_true, if_true, if_false]

theorem decodeFrom_three (hl : 0xE0 ≤ a.toNat) (hu : a.toNat < 0xF0) (hb : isSecond a b)
    (hc : isTail c) : decodeFrom position (a :: b :: c :: rest) =
      (decodeFrom (position + 3) rest).map
        (Char.ofNat (a.toNat % 0x10 * 0x1000 + low6 b * 0x40 + low6 c) :: ·) := by
  rw [decodeFrom.eq_def]
  have h₁ : ¬ a.toNat < 0x80 := by omega
  have h₂ : ¬ (a.toNat < 0xC2 ∨ 0xF5 ≤ a.toNat) := by omega
  have h₃ : ¬ a.toNat < 0xE0 := by omega
  simp only [h₁, h₂, h₃, hb, hc, hu, Bool.not_true, Bool.false_eq_true, if_true, if_false]

theorem decodeFrom_four (hl : 0xF0 ≤ a.toNat) (hu : a.toNat < 0xF5) (hb : isSecond a b)
    (hc : isTail c) (hd : isTail d) : decodeFrom position (a :: b :: c :: d :: rest) =
      (decodeFrom (position + 4) rest).map (Char.ofNat
        (a.toNat % 0x8 * 0x40000 + low6 b * 0x1000 + low6 c * 0x40 + low6 d) :: ·) := by
  rw [decodeFrom.eq_def]
  have h₁ : ¬ a.toNat < 0x80 := by omega
  have h₂ : ¬ (a.toNat < 0xC2 ∨ 0xF5 ≤ a.toNat) := by omega
  have h₃ : ¬ a.toNat < 0xE0 := by omega
  have h₄ : ¬ a.toNat < 0xF0 := by omega
  simp only [h₁, h₂, h₃, h₄, hb, hc, hd, Bool.not_true, Bool.false_eq_true, if_false]

theorem decodeFrom_encodeChar (char : Char) (position : Nat) (rest : List UInt8) :
    decodeFrom position (encodeChar char ++ rest) =
      (decodeFrom (position + (encodeChar char).length) rest).map (char :: ·) := by
  have hv := toNat_valid char
  unfold encodeChar
  by_cases h₁ : char.toNat < 0x80
  case pos =>
    have hn : char.toNat % 256 = char.toNat := by omega
    simp only [h₁, if_true, List.cons_append, List.nil_append]
    rw [decodeFrom_one (by simp [hn, h₁]), toNat_byte, hn, ofNat_of_eq char rfl]
    rfl
  by_cases h₂ : char.toNat < 0x800
  case pos =>
    simp only [h₁, h₂, if_true, if_false, List.cons_append, List.nil_append]
    rw [decodeFrom_two, ofNat_of_eq char]
    · rfl
    · simp only [toNat_byte, low6]
      omega
    · simp only [toNat_byte]
      omega
    · simp only [toNat_byte]
      omega
    · simp only [isSecond_iff, toNat_byte]
      omega
  by_cases h₃ : char.toNat < 0x10000
  case pos =>
    simp only [h₁, h₂, h₃, if_true, if_false, List.cons_append, List.nil_append]
    rw [decodeFrom_three, ofNat_of_eq char]
    · rfl
    · simp only [toNat_byte, low6]
      omega
    · simp only [toNat_byte]
      omega
    · simp only [toNat_byte]
      omega
    · simp only [isSecond_iff, toNat_byte]
      omega
    · simp only [isTail_iff, toNat_byte]
      omega
  case neg =>
    simp only [h₁, h₂, h₃, if_false, List.cons_append, List.nil_append]
    rw [decodeFrom_four, ofNat_of_eq char]
    · rfl
    · simp only [toNat_byte, low6]
      omega
    · simp only [toNat_byte]
      omega
    · simp only [toNat_byte]
      omega
    · simp only [isSecond_iff, toNat_byte]
      omega
    · simp only [isTail_iff, toNat_byte]
      omega
    · simp only [isTail_iff, toNat_byte]
      omega

-- Bytes that a text was written to are read as that text.
theorem decodeFrom_encodeChars (s : List Char) (position : Nat) :
    decodeFrom position (encodeChars s) = .ok s := by
  induction s generalizing position
  case nil => rfl
  case cons char s hi =>
    rw [encodeChars, List.flatMap_cons, decodeFrom_encodeChar, ← encodeChars, hi]
    rfl

theorem normalizeLineEnds_eq_self (h : '\r' ∉ s) : normalizeLineEnds s = s := by
  induction s
  case nil => rfl
  case cons char s hi =>
    simp only [List.mem_cons, not_or] at h
    rw [normalizeLineEnds, if_neg (Ne.symm h.left), hi h.right]
    exact fun _ hc _ => h.left hc.symm

theorem decodeText_encode {text : String} (h : '\r' ∉ text.toList) :
    decodeText (encode text) = .ok text := by
  rw [decodeText, encode, decodeFrom_encodeChars]
  simp [Except.map, normalizeLineEnds_eq_self h]

end GraphqlArtifacts.Utf8
