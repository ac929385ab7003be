import Mathlib.Data.List.Basic
import GraphqlArtifacts.Data.Basic

namespace GraphqlArtifacts.Data

variable {α : Type} {key k : String} {value v : α} {entries : List (String × α)}

@[simp]
theorem lookup_nil : lookup key ([] : List (String × α)) = none :=
  rfl

theorem lookup_cons : lookup key ((k, v) :: entries) =
    if k = key then some v else lookup key entries := by
  by_cases h : k = key <;> simp [lookup, h]

theorem lookup_append {more : List (String × α)} :
    lookup key (entries ++ more) = (lookup key entries).or (lookup key more) := by
  simp [lookup, List.find?_append, Option.map_or]

@[simp]
theorem lookup_insert_self : lookup key (insert key value entries) = some value := by
  induction entries
  case nil => simp [insert, lookup_cons]
  case cons head _ hi =>
    have ⟨k, _⟩ := head
    by_cases h : k = key <;> simp [insert, lookup_cons, h, hi]

theorem lookup_insert_of_ne (h : k ≠ key) :
    lookup k (insert key value entries) = lookup k entries := by
  induction entries
  case nil => simp [insert, lookup_cons, h.symm]
  case cons head _ hi =>
    have ⟨k', _⟩ := head
    by_cases hk : k' = key
    · simp [insert, lookup_cons, hk, h.symm]
    · simp [insert, lookup_cons, hk, hi]

@[simp]
theorem lookup_filter_self : lookup key (entries.filter (·.1 != key)) = none := by
  simp [lookup]

theorem lookup_filter_of_ne (h : k ≠ key) :
    lookup k (entries.filter (·.1 != key)) = lookup k entries := by
  rw [lookup, lookup, List.find?_filter]
  congr 3
  funext entry
  by_cases hk : entry.1 = k <;> simp [hk, h]

theorem isSome_lookup_iff : (lookup key entries).isSome ↔ key ∈ entries.map Prod.fst := by
  simp [lookup, List.find?_isSome]

theorem isSome_lookup_insert :
    (lookup k (insert key value entries)).isSome ↔ k = key ∨ (lookup k entries).isSome := by
  by_cases h : k = key
  · simp [h]
  · simp [lookup_insert_of_ne h, h]

theorem mem_insert (h : (k, v) ∈ insert key value entries) :
    k = key ∧ v = value ∨ (k, v) ∈ entries := by
  induction entries
  case nil => simpa [insert] using h
  case cons head tail hi =>
    have ⟨k', v'⟩ := head
    by_cases hk : k' = key
    case pos => grind [insert]
    case neg => grind [insert]

theorem nodup_insert (hn : (entries.map Prod.fst).Nodup) :
    ((insert key value entries).map Prod.fst).Nodup := by
  induction entries
  case nil => simp [insert]
  case cons head tail hi =>
    have ⟨k', v'⟩ := head
    simp only [List.map_cons, List.nodup_cons] at hn
    by_cases hk : k' = key
    case pos =>
      simp only [insert, hk, beq_self_eq_true, if_true, List.map_cons, List.nodup_cons]
      exact hk ▸ hn
    case neg =>
      simp only [insert, hk, beq_iff_eq, if_false, List.map_cons, List.nodup_cons]
      refine ⟨fun hm => ?_, hi hn.right⟩
      obtain ⟨⟨k, v⟩, hi, he⟩ := List.mem_map.mp hm
      cases mem_insert hi
      case inl hi => exact hk <| he.symm.trans hi.left
      case inr hi => exact hn.left <| he ▸ List.mem_map_of_mem hi

theorem insert_of_fresh (h : key ∉ entries.map Prod.fst) :
    insert key value entries = entries ++ [(key, value)] := by
  induction entries
  case nil => rfl
  case cons head tail hi =>
    simp only [List.map_cons, List.mem_cons, not_or] at h
    simp [insert, Ne.symm h.left, hi h.right]

theorem fresh_of_nodup {more : List (String × α)}
    (hn : ((entries ++ (key, value) :: more).map Prod.fst).Nodup) : key ∉ entries.map Prod.fst := by
  simp only [List.map_append, List.map_cons, List.nodup_append] at hn
  exact fun hm => hn.right.right key hm key (.head _) rfl

-- Where each key is used once, entries that are inserted one by one stay as they are.
theorem foldl_insert {done : List (String × α)} (hn : ((done ++ entries).map Prod.fst).Nodup) :
    entries.foldl (fun done (key, value) => insert key value done) done = done ++ entries := by
  induction entries generalizing done
  case nil => simp
  case cons head tail hi =>
    have ⟨k, v⟩ := head
    have hn' : ((done ++ [(k, v)] ++ tail).map Prod.fst).Nodup := by simpa using hn
    simpa [insert_of_fresh (fresh_of_nodup hn)] using hi hn'

theorem mem_of_lookup (h : lookup key entries = some value) : (key, value) ∈ entries := by
  simp only [lookup, Option.map_eq_some_iff] at h
  obtain ⟨⟨_, _⟩, hf, rfl⟩ := h
  have hk := List.find?_some hf
  exact eq_of_beq hk ▸ List.mem_of_find?_eq_some hf

-- Where each key is used once, every entry is found under its key.
theorem lookup_of_mem (hn : (entries.map Prod.fst).Nodup) (h : (key, value) ∈ entries) :
    lookup key entries = some value := by
  induction entries
  case nil => simp at h
  case cons head tail hi =>
    simp only [List.map_cons, List.nodup_cons] at hn
    rw [lookup_cons]
    cases List.mem_cons.mp h
    case inl he => simp [← he]
    case inr ht =>
      have hk : head.1 ≠ key := fun hk => hn.left <| hk ▸ List.mem_map_of_mem ht
      simp [hk, hi hn.right ht]

end GraphqlArtifacts.Data
