import GraphqlArtifacts.Proofs.Data.Lookup
import GraphqlArtifacts.Proofs.Json.Numbers
import GraphqlArtifacts.Proofs.Json.Strings

-- A value that is written as JSON is in ASCII, and is read back as it was: the keys of a table in
-- their order.

namespace GraphqlArtifacts.Json

-- The values that JSON has, without fractions: a key is used once in a table.
inductive IsPlain : Data → Prop
  | null : IsPlain .null
  | bool (b : Bool) : IsPlain (.bool b)
  | int (n : Int) : IsPlain (.int n)
  | text (s : String) : IsPlain (.text s)
  | list {items : List Data} (hi : ∀ d ∈ items, IsPlain d) : IsPlain (.list items)
  | table {entries : List (String × Data)} (hk : (entries.map Prod.fst).Nodup)
      (he : ∀ e ∈ entries, IsPlain e.2) : IsPlain (.table entries)

variable {c : Char} {after s : List Char} {fuel : Nat} {d : Data} {items : List Data}
variable {key : String} {entries done : List (String × Data)} {layout : Layout}

-- Layout

@[simp]
theorem inner_colon : layout.inner.colon = layout.colon := by
  cases layout <;> rfl

theorem skipSpace_newline (hc : isSpace c = false) :
    skipSpace (layout.newline ++ c :: s) = c :: s := by
  have hspaces (n : Nat) : skipSpace (List.replicate n ' ' ++ c :: s) = c :: s := by
    induction n
    case zero       => simp [skipSpace, hc]
    case succ n hi => simpa [skipSpace, List.replicate_succ, isSpace] using hi
  cases layout
  case line           => exact hspaces 0
  case indented depth => simpa [Layout.newline, skipSpace, isSpace] using hspaces (2 * depth)

theorem endsNumber_newline (hc : c.isDigit = false ∧ c ≠ '.' ∧ c ≠ 'e' ∧ c ≠ 'E') :
    EndsNumber (layout.newline ++ c :: s) := by
  cases layout
  case line           => simpa [EndsNumber, Layout.newline] using hc
  case indented depth => simp [EndsNumber, Layout.newline]

theorem isSpace_of_isDigit (hc : c.isDigit) : isSpace c = false := by
  have hs : ' ' ≠ c := ne_of_isDigit hc rfl
  have ht : '\t' ≠ c := ne_of_isDigit hc rfl
  have hn : '\n' ≠ c := ne_of_isDigit hc rfl
  have hr : '\r' ≠ c := ne_of_isDigit hc rfl
  simp [isSpace, hs.symm, ht.symm, hn.symm, hr.symm]

-- The text of a value starts with neither a space nor the end of a list.
theorem exists_chars_cons (layout : Layout) (h : IsPlain d) :
    ∃ c s, chars layout d = c :: s ∧ isSpace c = false ∧ c ≠ ']' := by
  cases h
  case null   => exact ⟨_, _, rfl, rfl, by decide⟩
  case bool b => cases b <;> exact ⟨_, _, rfl, rfl, by decide⟩
  case int n =>
    rw [chars, toList_toString]
    split
    case isTrue =>
      have ⟨c, s, hs, hc⟩ := exists_toDigits_cons n.toNat
      exact ⟨c, s, hs, isSpace_of_isDigit hc, (ne_of_isDigit hc rfl).symm⟩
    case isFalse => exact ⟨_, _, rfl, rfl, by decide⟩
  case text s         => exact ⟨_, _, rfl, rfl, by decide⟩
  case list items _   => cases items <;> exact ⟨_, _, rfl, rfl, by decide⟩
  case table entries _ _ => cases entries <;> exact ⟨_, _, rfl, rfl, by decide⟩

-- Values

-- A value is read back in front of any text that does not go on with a number.
def ReadsBack (d : Data) : Prop :=
  ∀ layout fuel after, EndsNumber after → (chars layout d).length ≤ fuel →
    readValue fuel (chars layout d ++ after) = .ok (d, after)

theorem skipSpace_chars (outer layout : Layout) (h : IsPlain d) :
    skipSpace (outer.newline ++ (chars layout d ++ s)) = chars layout d ++ s := by
  have ⟨c, s', hs, hc, _⟩ := exists_chars_cons layout h
  simpa [hs] using skipSpace_newline hc

theorem endsNumber_items {outer : Layout} :
    EndsNumber (itemChars layout items ++ (outer.newline ++ ']' :: after)) := by
  cases items
  case nil  => exact endsNumber_newline (by decide)
  case cons => simp [EndsNumber, itemChars]

theorem readItems_chars (outer : Layout) (hd : ReadsBack d) (hr : ∀ d ∈ items, ReadsBack d)
    (hp : ∀ d ∈ items, IsPlain d) (hf : (chars layout d ++ itemChars layout items).length < fuel) :
    readItems fuel (chars layout d ++ (itemChars layout items ++ (outer.newline ++ ']' :: after))) =
      .ok (d :: items, after) := by
  induction items generalizing d fuel
  case nil =>
    obtain ⟨fuel, rfl⟩ := Nat.exists_eq_add_one_of_ne_zero (by omega : fuel ≠ 0)
    simp only [itemChars, List.append_nil, List.nil_append] at hf ⊢
    rw [readItems, hd _ _ _ (endsNumber_newline (by decide)) (by omega)]
    simp [bind, Except.bind, skipSpace_newline (c := ']') rfl]
  case cons next items hi =>
    obtain ⟨fuel, rfl⟩ := Nat.exists_eq_add_one_of_ne_zero (by omega : fuel ≠ 0)
    rw [readItems, hd _ _ _ endsNumber_items (by simp at hf; omega)]
    simp only [itemChars, List.length_append, List.length_cons, List.append_assoc, List.cons_append]
      at hf ⊢
    have hskip {s : List Char} : skipSpace (',' :: s) = ',' :: s := rfl
    have hl : (chars layout next ++ itemChars layout items).length < fuel := by
      simp
      omega
    have hi := hi (hr _ (.head _)) (fun d hd => hr d (.tail _ hd))
      (fun d hd => hp d (.tail _ hd)) hl
    simp [bind, Except.bind, hskip, skipSpace_chars _ _ (hp next (.head _)), hi]

theorem skipSpace_quote : skipSpace (layout.newline ++ (quote key ++ s)) = quote key ++ s := by
  simpa [quote] using skipSpace_newline (c := '"') rfl

theorem endsNumber_entries {outer : Layout} :
    EndsNumber (entryChars layout entries ++ (outer.newline ++ '\x7d' :: after)) := by
  cases entries
  case nil  => exact endsNumber_newline (by decide)
  case cons => simp [EndsNumber, entryChars]

-- A member with a new key is added to those before it.
theorem readMembers_member (hd : ReadsBack d) (hp : IsPlain d) (hk : key ∉ done.map Prod.fst)
    (ha : EndsNumber after) (hf : (chars layout d).length ≤ fuel) :
    readMembers (fuel + 1) done (quote key ++ (layout.colon ++ (chars layout d ++ after))) =
      match skipSpace after with
      | '\x7d' :: r => .ok (done ++ [(key, d)], r)
      | ',' :: r => readMembers fuel (done ++ [(key, d)]) (skipSpace r)
      | r => .error ⟨.expectingComma, r⟩ := by
  have hcolon (s : List Char) : ∃ s', skipSpace (layout.colon ++ s) = ':' :: s' ∧
      skipSpace s' = skipSpace s := by
    cases layout
    case line     => exact ⟨s, rfl, rfl⟩
    case indented => exact ⟨' ' :: s, rfl, rfl⟩
  have hchars (s : List Char) : skipSpace (chars layout d ++ s) = chars layout d ++ s :=
    skipSpace_chars .line layout hp
  have ⟨s, hs, hskip⟩ := hcolon (chars layout d ++ after)
  have hq (s : List Char) : quote key ++ s = '"' :: (escape key.toList ++ '"' :: s) := by
    simp [quote]
  rw [hq, readMembers, readString_escape]
  simp only [bind, Except.bind, hs, hskip, hchars, hd _ _ _ ha hf]
  exact Data.insert_of_fresh hk ▸ rfl

theorem readMembers_chars (outer : Layout) (hd : ReadsBack d) (hp : IsPlain d)
    (hr : ∀ e ∈ entries, ReadsBack e.2) (hps : ∀ e ∈ entries, IsPlain e.2)
    (hk : ((done ++ (key, d) :: entries).map Prod.fst).Nodup)
    (hf : (quote key ++ layout.colon ++ chars layout d ++
      entryChars layout entries).length < fuel) :
    readMembers fuel done (quote key ++ (layout.colon ++ (chars layout d ++
        (entryChars layout entries ++ (outer.newline ++ '\x7d' :: after))))) =
      .ok (done ++ (key, d) :: entries, after) := by
  induction entries generalizing key d done fuel
  case nil =>
    obtain ⟨fuel, rfl⟩ := Nat.exists_eq_add_one_of_ne_zero (by omega : fuel ≠ 0)
    rw [readMembers_member hd hp (Data.fresh_of_nodup hk) endsNumber_entries (by simp at hf; omega)]
    simp [entryChars, skipSpace_newline (c := '\x7d') rfl]
  case cons next entries hi =>
    obtain ⟨fuel, rfl⟩ := Nat.exists_eq_add_one_of_ne_zero (by omega : fuel ≠ 0)
    have ⟨key', d'⟩ := next
    rw [readMembers_member hd hp (Data.fresh_of_nodup hk) endsNumber_entries (by simp at hf; omega)]
    simp only [entryChars, List.length_append, List.length_cons, List.append_assoc,
      List.cons_append] at hf ⊢
    have hskip {s : List Char} : skipSpace (',' :: s) = ',' :: s := rfl
    have hk' : ((done ++ [(key, d)] ++ (key', d') :: entries).map Prod.fst).Nodup := by
      simpa using hk
    have hl : (quote key' ++ layout.colon ++ chars layout d' ++
        entryChars layout entries).length < fuel := by
      simp
      omega
    have hi := hi (hr _ (.head _)) (hps _ (.head _)) (fun e he => hr e (.tail _ he))
      (fun e he => hps e (.tail _ he)) hk' hl
    simp [hskip, skipSpace_quote, hi]

theorem readValue_scalar (hq : c ≠ '"') (ht : c ≠ '\x7b') (hl : c ≠ '[') :
    readValue (fuel + 1) (c :: s) = readScalar (c :: s) := by
  simp [readValue, hq, ht, hl]

theorem readValue_int (ha : EndsNumber after) (n : Int) :
    readValue (fuel + 1) ((toString n).toList ++ after) = .ok (.int n, after) := by
  rw [← readScalar_int ha, toList_toString]
  split
  case isTrue =>
    have ⟨c, s, hs, hc⟩ := exists_toDigits_cons n.toNat
    rw [hs]
    exact readValue_scalar (ne_of_isDigit hc rfl).symm (ne_of_isDigit hc rfl).symm
      (ne_of_isDigit hc rfl).symm
  case isFalse => exact readValue_scalar (by decide) (by decide) (by decide)

theorem readValue_list (h : (skipSpace after).head? ≠ some ']') :
    readValue (fuel + 1) ('[' :: after) =
      (readItems fuel (skipSpace after)).map fun (items, r) => (.list items, r) := by
  rw [readValue]
  grind

theorem readValue_table (h : (skipSpace after).head? ≠ some '\x7d') :
    readValue (fuel + 1) ('\x7b' :: after) =
      (readMembers fuel [] (skipSpace after)).map fun (entries, r) => (.table entries, r) := by
  rw [readValue]
  grind

theorem IsPlain.readsBack (h : IsPlain d) : ReadsBack d := by
  have hsucc {fuel : Nat} {c : Char} {s : List Char} (hf : (c :: s).length ≤ fuel) :
      ∃ fuel', fuel = fuel' + 1 ∧ s.length ≤ fuel' :=
    ⟨fuel - 1, by simp at hf; omega, by simp at hf; omega⟩
  induction h
  all_goals intro layout fuel after ha hf
  case null =>
    obtain ⟨fuel, rfl, _⟩ := hsucc hf
    rfl
  case bool b =>
    cases b
    all_goals
      obtain ⟨fuel, rfl, _⟩ := hsucc hf
      rfl
  case int n =>
    have ⟨c, s, hs, _⟩ := exists_chars_cons layout (.int n)
    obtain ⟨fuel, rfl, _⟩ := hsucc (hs ▸ hf)
    exact readValue_int ha n
  case text s =>
    obtain ⟨fuel, rfl, _⟩ := hsucc hf
    simp [chars, quote, readValue, readString_escape, Except.map]
  case list items hp hi =>
    cases items
    case nil =>
      obtain ⟨fuel, rfl, _⟩ := hsucc hf
      rfl
    case cons d items =>
      simp only [chars, List.cons_append, List.append_assoc, List.nil_append] at hf ⊢
      obtain ⟨fuel, rfl, hf⟩ := hsucc hf
      obtain ⟨c, s, hs, _, hc⟩ := exists_chars_cons layout.inner (hp d (.head _))
      have hl : (chars layout.inner d ++ itemChars layout.inner items).length < fuel := by
        simp at hf ⊢
        omega
      have hskip (s : List Char) :
          skipSpace (layout.inner.newline ++ (chars layout.inner d ++ s)) =
            chars layout.inner d ++ s :=
        skipSpace_chars layout.inner layout.inner (hp d (.head _))
      rw [readValue_list (by rw [hskip, hs]; simpa using hc), hskip,
        readItems_chars layout (hi d (.head _)) (fun d hd => hi d (.tail _ hd))
          (fun d hd => hp d (.tail _ hd)) hl]
      rfl
  case table entries hk hp hi =>
    cases entries
    case nil =>
      obtain ⟨fuel, rfl, _⟩ := hsucc hf
      rfl
    case cons e entries =>
      obtain ⟨key, d⟩ := e
      simp only [chars, List.cons_append, List.append_assoc, List.nil_append] at hf ⊢
      obtain ⟨fuel, rfl, hf⟩ := hsucc hf
      have hl : (quote key ++ layout.inner.colon ++ chars layout.inner d ++
          entryChars layout.inner entries).length < fuel := by
        simp at hf ⊢
        omega
      rw [readValue_table (by rw [skipSpace_quote]; simp [quote]), skipSpace_quote, ← inner_colon,
        readMembers_chars layout (hi _ (.head _)) (hp _ (.head _)) (fun e he => hi e (.tail _ he))
          (fun e he => hp e (.tail _ he)) hk hl]
      rfl

theorem isAscii_newline : IsAscii layout.newline := by
  cases layout
  case line => simp [IsAscii, Layout.newline]
  case indented depth =>
    rw [Layout.newline, isAscii_cons]
    exact ⟨by decide, fun c hc => by simp [List.eq_of_mem_replicate hc]⟩

theorem isAscii_colon : IsAscii layout.colon := by
  cases layout
  case line     => decide
  case indented => exact (by decide : IsAscii [':', ' '])

theorem isAscii_itemChars (h : ∀ d ∈ items, IsAscii (chars layout d)) :
    IsAscii (itemChars layout items) := by
  induction items
  case nil => exact (by decide : IsAscii [])
  case cons d items hi =>
    simp only [itemChars, List.cons_append, isAscii_cons, isAscii_append]
    exact ⟨by decide, ⟨isAscii_newline, h d (.head _)⟩, hi fun d hd => h d (.tail _ hd)⟩

theorem isAscii_entryChars (h : ∀ e ∈ entries, IsAscii (chars layout e.2)) :
    IsAscii (entryChars layout entries) := by
  induction entries
  case nil => exact (by decide : IsAscii [])
  case cons e entries hi =>
    simp only [entryChars, List.cons_append, isAscii_cons, isAscii_append]
    exact ⟨by decide, ⟨⟨⟨isAscii_newline, isAscii_quote _⟩, isAscii_colon⟩, h e (.head _)⟩,
      hi fun e he => h e (.tail _ he)⟩

theorem IsPlain.isAscii_chars (layout : Layout) (h : IsPlain d) : IsAscii (chars layout d) := by
  induction h generalizing layout
  case null   => exact (by decide : IsAscii "null".toList)
  case bool b => cases b <;> simp [chars, IsAscii]
  case int n  =>
    have hd (n : Nat) : IsAscii (Nat.toDigits 10 n) := isAscii_toDigits (by decide) (by decide) n
    rw [chars, toList_toString]
    split
    case isTrue  => exact hd _
    case isFalse => exact isAscii_cons.mpr ⟨by decide, hd _⟩
  case text s => exact isAscii_quote s
  case list items hp hi =>
    cases items
    case nil => exact (by decide : IsAscii ['[', ']'])
    case cons d items =>
      simp only [chars, List.cons_append, isAscii_cons, isAscii_append]
      exact ⟨by decide, ⟨⟨⟨isAscii_newline, hi d (.head _) _⟩,
        isAscii_itemChars fun d hd => hi d (.tail _ hd) _⟩, isAscii_newline⟩, by decide⟩
  case table entries hk hp hi =>
    cases entries
    case nil => exact (by decide : IsAscii ['\x7b', '\x7d'])
    case cons e entries =>
      simp only [chars, List.cons_append, isAscii_cons, isAscii_append]
      exact ⟨by decide, ⟨⟨⟨⟨⟨isAscii_newline, isAscii_quote _⟩, isAscii_colon⟩, hi e (.head _) _⟩,
        isAscii_entryChars fun e he => hi e (.tail _ he) _⟩, isAscii_newline⟩, by decide⟩

-- A value that is written is read back, with the keys of its tables in their order.
theorem read_chars (h : IsPlain d) : read (String.ofList (chars layout d)) = .ok d := by
  have hends : EndsNumber [] := by simp [EndsNumber]
  have hr := h.readsBack layout (2 * (chars layout d).length + 2) [] hends (by omega)
  have ⟨c, s, hs, hspace, _⟩ := exists_chars_cons layout h
  have hc : c.toNat < 0x80 := h.isAscii_chars layout c (by simp [hs])
  have hdoc : readDocument (chars layout d) = .ok d := by
    rw [List.append_nil, hs] at hr
    rw [hs, readDocument]
    · have hskip : skipSpace (c :: s) = c :: s := by simp [skipSpace, hspace]
      simp only [hskip, hr, bind, Except.bind]
      rfl
    · rintro _ ⟨⟩
      exact absurd hc (by decide)
  simp [read, hdoc, Except.mapError]

end GraphqlArtifacts.Json
