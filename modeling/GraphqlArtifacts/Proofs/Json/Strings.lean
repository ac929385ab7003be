import Mathlib.Data.List.Basic
import GraphqlArtifacts.Json.Printer
import GraphqlArtifacts.Json.Reader

namespace GraphqlArtifacts.Json

-- Texts in ASCII

def IsAscii (s : List Char) : Prop :=
  ∀ c ∈ s, c.toNat < 0x80

instance : DecidablePred IsAscii :=
  fun s => List.decidableBAll (fun (c : Char) => c.toNat < 0x80) s

variable {c : Char} {s s' rest opening : List Char} {ns : List Nat} {n : Nat}

theorem isAscii_append : IsAscii (s ++ s') ↔ IsAscii s ∧ IsAscii s' :=
  List.forall_mem_append

theorem isAscii_cons : IsAscii (c :: s) ↔ c.toNat < 0x80 ∧ IsAscii s :=
  List.forall_mem_cons

-- Hexadecimal digits

theorem hexDigit?_digitChar (h : n < 16) : hexDigit? n.digitChar = some n := by
  have hall : ∀ n < 16, hexDigit? (Nat.digitChar n) = some n := by decide
  exact hall n h

theorem hexValue?_toDigits (n : Nat) : hexValue? (Nat.toDigits 16 n) = some n := by
  induction n using Nat.strongRecOn
  case ind n hi =>
    rw [Nat.toDigits_eq_if (by decide)]
    split
    case isTrue h => simp [hexValue?, hexDigit?_digitChar h]
    case isFalse h =>
      have hv := hi (n / 16) (by omega)
      have hm : n % 16 < 16 := Nat.mod_lt _ (by decide)
      rw [hexValue?] at hv ⊢
      rw [List.foldlM_append, hv]
      simp [hexDigit?_digitChar hm, Nat.div_add_mod]

theorem hexValue?_zero_cons (s : List Char) : hexValue? ('0' :: s) = hexValue? s :=
  rfl

theorem hexValue?_hexDigits (n width : Nat) : hexValue? (Quoted.hexDigits n width) = some n := by
  rw [Quoted.hexDigits]
  induction width - (Nat.toDigits 16 n).length
  case zero         => exact hexValue?_toDigits n
  case succ zeros hi => simpa [List.replicate_succ, hexValue?_zero_cons] using hi

theorem length_hexDigits (h : n < 0x10000) : (Quoted.hexDigits n 4).length = 4 := by
  have hl : (Nat.toDigits 16 n).length ≤ 4 :=
    (Nat.length_toDigits_le_iff (by decide) (by decide)).mpr h
  simp [Quoted.hexDigits]
  omega

theorem isAscii_toDigits {b : Nat} (hb : 1 < b) (h : b ≤ 16) (n : Nat) :
    IsAscii (Nat.toDigits b n) := by
  have hdigit : ∀ n < 16, (Nat.digitChar n).toNat < 0x80 := by decide
  induction n using Nat.strongRecOn
  case ind n hi =>
    rw [Nat.toDigits_eq_if hb]
    split
    case isTrue hn => simpa [IsAscii] using hdigit n (by omega)
    case isFalse hn =>
      rw [isAscii_append]
      refine ⟨hi _ (Nat.div_lt_self (by omega) hb), ?_⟩
      have := Nat.mod_lt n (show 0 < b by omega)
      simpa [IsAscii] using hdigit (n % b) (by omega)

theorem isAscii_hexDigits (n width : Nat) : IsAscii (Quoted.hexDigits n width) := by
  rw [Quoted.hexDigits, isAscii_append]
  refine ⟨fun c hc => ?_, isAscii_toDigits (by decide) (by decide) n⟩
  simp [List.eq_of_mem_replicate hc]

-- Escapes

-- What a reader finds for a character: the character, or the two halves of a large one.
def units (c : Char) : List Nat :=
  if c.toNat < 0x10000 then [c.toNat]
  else [0xD800 + (c.toNat - 0x10000) / 0x400, 0xDC00 + (c.toNat - 0x10000) % 0x400]

-- Reading a text gives some values, and goes on with what follows it.
def Reads (opening s : List Char) (ns : List Nat) : Prop :=
  ∀ rest, rest ≠ [] → stringValues opening (s ++ rest) =
    (stringValues opening rest).map fun (later, r) => (ns ++ later, r)

theorem Reads.append {ns' : List Nat} (h : Reads opening s ns) (h' : Reads opening s' ns') :
    Reads opening (s ++ s') (ns ++ ns') := by
  intro rest hr
  rw [List.append_assoc, h _ (List.append_ne_nil_of_right_ne_nil _ hr), h' _ hr]
  cases stringValues opening rest <;> simp [Except.map]

theorem reads_unitEscape (h : n < 0x10000) : Reads opening (unitEscape n) [n] := by
  intro rest hr
  have hv := hexValue?_hexDigits n 4
  have hl := length_hexDigits h
  rw [unitEscape]
  generalize Quoted.hexDigits n 4 = digits at hv hl
  obtain ⟨e, rest, rfl⟩ := List.exists_cons_of_ne_nil hr
  match digits, hl with
  | [a, b, c, d], _ => simp [stringValues, hv]

theorem reads_simpleEscape (hc : c ≠ 'u') {e : Char} (h : simpleEscape? c = some e) :
    Reads opening ['\\', c] [e.toNat] := by
  intro rest _
  simp [stringValues, hc, h]

theorem reads_char (hq : c ≠ '"') (hb : c ≠ '\\') (hn : 0x20 ≤ c.toNat) :
    Reads opening [c] [c.toNat] := by
  intro rest _
  have hn : ¬ c.toNat < 0x20 := by omega
  simp [stringValues, hb, hn]

theorem toNat_lt_max (c : Char) : c.toNat < 0x110000 := by
  have h : c.toNat < 0xD800 ∨ 0xDFFF < c.toNat ∧ c.toNat < 0x110000 := c.valid
  omega

-- The second half of what is written for a large character follows the first half.
theorem reads_largeChar (h : ¬ c.toNat < 0x10000) : Reads opening
    (unitEscape (0xD800 + (c.toNat - 0x10000) / 0x400) ++
      unitEscape (0xDC00 + (c.toNat - 0x10000) % 0x400)) (units c) := by
  have hmax : c.toNat < 0x110000 := toNat_lt_max c
  rw [units, if_neg h]
  exact (reads_unitEscape (by omega)).append (reads_unitEscape (by omega))

theorem reads_escapeChar (c : Char) : Reads opening (escapeChar c) (units c) := by
  have hsimple {e d : Char} (he : e ≠ 'u') (h : simpleEscape? e = some d) (hc : c = d)
      (hd : d.toNat < 0x10000) : Reads opening ['\\', e] (units c) := by
    rw [hc, units, if_pos hd]
    exact reads_simpleEscape he h
  simp only [escapeChar]
  split_ifs with hquote hback hnewline hreturn htab hpage hbell hshown hsmall
  case pos => exact hsimple (by decide) rfl hquote (by decide)
  case pos => exact hsimple (by decide) rfl hback (by decide)
  case pos => exact hsimple (by decide) rfl hnewline (by decide)
  case pos => exact hsimple (by decide) rfl hreturn (by decide)
  case pos => exact hsimple (by decide) rfl htab (by decide)
  case pos => exact hsimple (by decide) rfl hpage (by decide)
  case pos => exact hsimple (by decide) rfl hbell (by decide)
  case pos =>
    rw [units, if_pos (by omega)]
    exact reads_char hquote hback hshown.left
  case pos =>
    rw [units, if_pos hsmall]
    exact reads_unitEscape hsmall
  case neg => exact reads_largeChar hsmall

theorem stringValues_escape :
    stringValues opening (escape s ++ '"' :: rest) = .ok (s.flatMap units, rest) := by
  have h : Reads opening (escape s) (s.flatMap units) := by
    induction s
    case nil =>
      intro rest _
      cases hr : stringValues opening rest <;> simp [escape, hr, Except.map]
    case cons c s hi => exact (reads_escapeChar c).append hi
  rw [h _ (List.cons_ne_nil _ _), stringValues]
  simp [Except.map]

-- Characters

theorem toNat_not_surrogate (c : Char) : ¬ isHighSurrogate c.toNat ∧ ¬ isLowSurrogate c.toNat := by
  have h : c.toNat < 0xD800 ∨ 0xDFFF < c.toNat ∧ c.toNat < 0x110000 := c.valid
  simp [isHighSurrogate, isLowSurrogate]
  omega

theorem charsOfValues_cons (h : ¬ isHighSurrogate n) :
    charsOfValues (n :: ns) = charOfValue n :: charsOfValues ns := by
  cases ns <;> simp [charsOfValues, h]

theorem charsOfValues_units (c : Char) (ns : List Nat) :
    charsOfValues (units c ++ ns) = c :: charsOfValues ns := by
  rw [units]
  split
  case isTrue =>
    have ⟨hhigh, hlow⟩ := toNat_not_surrogate c
    rw [List.singleton_append, charsOfValues_cons hhigh]
    simp [charOfValue, hhigh, hlow]
  case isFalse h =>
    have hmax : c.toNat < 0x110000 := toNat_lt_max c
    have hhigh : isHighSurrogate (0xD800 + (c.toNat - 0x10000) / 0x400) := by
      simp [isHighSurrogate]
      omega
    have hlow : isLowSurrogate (0xDC00 + (c.toNat - 0x10000) % 0x400) := by
      simp [isLowSurrogate]
      omega
    have hc : 0x10000 + (0xD800 + (c.toNat - 0x10000) / 0x400 - 0xD800) * 0x400 +
        (0xDC00 + (c.toNat - 0x10000) % 0x400 - 0xDC00) = c.toNat := by
      omega
    simp only [List.cons_append, List.nil_append, charsOfValues, hhigh, hlow, Bool.and_self,
      if_true, hc, Char.ofNat_toNat]

-- A text that was put in quotes is read back, whatever follows.
theorem readString_escape (s : String) (rest : List Char) :
    readString (escape s.toList ++ '"' :: rest) = .ok (s, rest) := by
  have h (s : List Char) : charsOfValues (s.flatMap units) = s := by
    induction s
    case nil => rfl
    case cons c s hi => rw [List.flatMap_cons, charsOfValues_units, hi]
  rw [readString, stringValues_escape]
  simp [Except.map, h]

theorem isAscii_escapeChar (c : Char) : IsAscii (escapeChar c) := by
  have hunit (n : Nat) : IsAscii (unitEscape n) := by
    rw [unitEscape, isAscii_cons, isAscii_cons]
    exact ⟨by decide, by decide, isAscii_hexDigits n 4⟩
  simp only [escapeChar]
  split_ifs with _ _ _ _ _ _ _ hshown
  case pos => decide
  case pos => decide
  case pos => decide
  case pos => decide
  case pos => decide
  case pos => decide
  case pos => decide
  case pos => simpa [IsAscii] using (by omega : c.toNat < 0x80)
  case pos => exact hunit _
  case neg => exact isAscii_append.mpr ⟨hunit _, hunit _⟩

theorem isAscii_quote (s : String) : IsAscii (quote s) := by
  have h : IsAscii (escape s.toList) := fun c hc => by
    have ⟨d, _, hd⟩ := List.mem_flatMap.mp hc
    exact isAscii_escapeChar d c hd
  rw [quote, List.cons_append, isAscii_cons, isAscii_append]
  exact ⟨by decide, h, by decide⟩

end GraphqlArtifacts.Json
