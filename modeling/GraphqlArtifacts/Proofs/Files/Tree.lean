import Mathlib.Data.List.Induction
import Mathlib.Data.List.Nodup
import Mathlib.Logic.Function.Basic
import GraphqlArtifacts.Files.Tree

namespace GraphqlArtifacts

def Entry.content? : Entry → Option (List UInt8)
  | .file content => some content
  | .directory    => none

namespace Tree

variable {t u v : Tree} {place here parts above below other : List String} {name : String}
  {e : Entry} {content : List UInt8} {p : Path} {files files' : List String → Option (List UInt8)}

-- The bytes of the file at a place.
def bytesAt (t : Tree) (place : List String) : Option (List UInt8) :=
  (t.get? place).bind Entry.content?

theorem bytesAt_eq_some : t.bytesAt place = some content ↔ t.get? place = some (.file content) := by
  rcases h : t.get? place with _ | ⟨_ | _⟩ <;> simp [bytesAt, h, Entry.content?]

@[simp]
theorem bytesAt_empty : Tree.empty.bytesAt place = none := by
  by_cases h : place = [] <;> simp [bytesAt, get?, Tree.empty, Entry.content?, h]

@[simp]
theorem get?_nil : t.get? [] = some .directory := by
  simp [get?]

theorem find?_filter_place (keeps : List String → Bool) (entries : List (List String × Entry)) :
    (entries.filter fun entry => keeps entry.1).find? (·.1 == other) =
      if keeps other then entries.find? (·.1 == other) else none := by
  induction entries
  case nil => simp
  case cons head entries hi =>
    have ⟨q, _⟩ := head
    rw [List.filter_cons]
    by_cases hq : q = other <;> cases hk : keeps q <;> simp_all

theorem get?_set (h : place ≠ []) :
    (t.set place e).get? other = if other = place then some e else t.get? other := by
  unfold get? set
  rw [List.find?_append, find?_filter_place (· != place)]
  by_cases ho : other = place
  case pos => simp [ho, h]
  case neg => simp [ho, Ne.symm ho]

theorem get?_erase : (t.erase place).get? other =
    if other ≠ [] ∧ place <+: other then none else t.get? other := by
  unfold get? erase
  have hd : place.isPrefixOf other = decide (place <+: other) := by
    rw [Bool.eq_iff_iff]
    simp
  rw [find?_filter_place (!place.isPrefixOf ·), hd]
  by_cases hn : other = [] <;> by_cases hp : place <+: other <;> simp [hn, hp]

-- A tree has one entry at each place, in a directory, and no names that lead elsewhere.
structure WellFormed (t : Tree) : Prop where
  nodup : (t.entries.map Prod.fst).Nodup
  named : ∀ {place e}, (place, e) ∈ t.entries → place ≠ [] ∧ ".." ∉ place
  parent : ∀ {place name e}, t.get? (place ++ [name]) = some e → t.get? place = some .directory

namespace WellFormed

theorem empty : Tree.empty.WellFormed where
  nodup := by simp [Tree.empty]
  named := by simp [Tree.empty]
  parent := by simp [Tree.empty, get?]

theorem mem_entries_iff (h : t.WellFormed) :
    (place, e) ∈ t.entries ↔ place ≠ [] ∧ t.get? place = some e := by
  constructor
  case mp =>
    intro hm
    have hn := (h.named hm).left
    obtain ⟨found, hf⟩ : ∃ found, t.entries.find? (·.1 == place) = some found :=
      Option.isSome_iff_exists.mp <| List.find?_isSome.mpr ⟨_, hm, by simp⟩
    have hk : found.1 = place := by simpa using List.find?_some hf
    have he := List.inj_on_of_nodup_map h.nodup (List.mem_of_find?_eq_some hf) hm hk
    exact ⟨hn, by simp [get?, hn, hf, he]⟩
  case mpr =>
    intro ⟨hn, hg⟩
    simp only [get?, hn, if_false, Option.map_eq_some_iff] at hg
    obtain ⟨⟨q, _⟩, hf, rfl⟩ := hg
    have hk : q = place := by simpa using List.find?_some hf
    exact hk ▸ List.mem_of_find?_eq_some hf

-- A tree is well-formed if each of its entries is in a directory.
theorem ofEntries (hk : (t.entries.map Prod.fst).Nodup)
    (h : ∀ entry ∈ t.entries,
      entry.1 ≠ [] ∧ ".." ∉ entry.1 ∧ t.get? entry.1.dropLast = some .directory) :
    t.WellFormed where
  nodup := hk
  named hm := ⟨(h _ hm).left, (h _ hm).right.left⟩
  parent {place name e} hg := by
    simp only [get?, List.append_eq_nil_iff, List.cons_ne_self, and_false, if_false,
      Option.map_eq_some_iff] at hg
    obtain ⟨entry, hf, _⟩ := hg
    have hk : entry.1 = place ++ [name] := by simpa using List.find?_some hf
    simpa [hk] using (h entry <| List.mem_of_find?_eq_some hf).right.right

theorem dotDot_not_mem (h : t.WellFormed) (hg : t.get? place = some e) : ".." ∉ place := by
  by_cases hn : place = []
  case pos => simp [hn]
  case neg => exact (h.named <| h.mem_entries_iff.mpr ⟨hn, hg⟩).right

theorem directory_above (h : t.WellFormed) (hg : t.get? (above ++ below) = some e) (hn : below ≠ []) :
    t.get? above = some .directory := by
  induction below using List.reverseRecOn generalizing e
  case nil => contradiction
  case append_singleton below name hi =>
    rw [← List.append_assoc] at hg
    have hd := h.parent hg
    by_cases hb : below = []
    case pos => simpa [hb] using hd
    case neg => exact hi hd hb

theorem below_file (h : t.WellFormed) (hf : t.get? place = some (.file content))
    (hp : place <+: other) (hg : t.get? other = some e) : other = place := by
  obtain ⟨below, rfl⟩ := hp
  by_cases hb : below = []
  case pos => simp [hb]
  case neg => simp [h.directory_above hg hb] at hf

end WellFormed

-- What a tree became by changes to its files, with directories made for them.
structure Became (t u : Tree) (files : List String → Option (List UInt8)) : Prop where
  wellFormed : u.WellFormed
  directory : ∀ {place}, t.get? place = some .directory → u.get? place = some .directory
  bytesAt : ∀ place, u.bytesAt place = files place

namespace Became

theorem refl (h : t.WellFormed) : Became t t t.bytesAt :=
  ⟨h, id, fun _ => rfl⟩

theorem trans (h : Became t u files) (h' : Became u v files') : Became t v files' :=
  ⟨h'.wellFormed, h'.directory ∘ h.directory, h'.bytesAt⟩

theorem set (ht : t.WellFormed) (hn : place ≠ []) (hm : ".." ∉ place)
    (hp : t.get? place.dropLast = some .directory) (hd : t.get? place ≠ some .directory) :
    Became t (t.set place e) (Function.update t.bytesAt place e.content?) where
  wellFormed := by
    refine ⟨?_, ?_, ?_⟩
    · simp only [Tree.set, List.map_append, List.map_cons, List.map_nil]
      refine List.Nodup.append (ht.nodup.sublist <| List.filter_sublist.map _) (by simp) ?_
      simp
    · intro q e' hq
      simp only [Tree.set, List.mem_append, List.mem_filter, List.mem_singleton, Prod.mk.injEq] at hq
      cases hq
      case inl hq => exact ht.named hq.left
      case inr hq => exact hq.left ▸ ⟨hn, hm⟩
    · intro q name e' hg
      rw [get?_set hn] at hg ⊢
      have hq : t.get? q = some .directory := by
        by_cases hq : q ++ [name] = place
        case pos => simpa [← hq] using hp
        case neg => exact ht.parent <| by simpa [hq] using hg
      have hne : q ≠ place := fun he => hd <| he ▸ hq
      simpa [hne] using hq
  directory := by
    intro q hq
    have hne : q ≠ place := fun he => hd <| he ▸ hq
    simpa [get?_set hn, hne] using hq
  bytesAt := by
    intro q
    by_cases hq : q = place <;> simp [Tree.bytesAt, get?_set hn, hq]

theorem erase (ht : t.WellFormed) (hf : t.get? place = some (.file content)) :
    Became t (t.erase place) (Function.update t.bytesAt place none) := by
  have hn : place ≠ [] := by
    rintro rfl
    simp at hf
  have hg (q : List String) : (t.erase place).get? q = if q = place then none else t.get? q := by
    rw [get?_erase]
    by_cases hq : q = place
    case pos => simp [hq, hn]
    case neg =>
      by_cases hp : q ≠ [] ∧ place <+: q
      case neg => simp [hq, hp]
      case pos =>
        cases he : t.get? q
        case none => simp
        case some => exact absurd (ht.below_file hf hp.right he) hq
  refine ⟨⟨?_, ?_, ?_⟩, ?_, ?_⟩
  · exact ht.nodup.sublist <| List.filter_sublist.map _
  · exact fun hq => ht.named (List.mem_filter.mp hq).left
  · intro q name e hq
    rw [hg] at hq ⊢
    have hd := ht.parent (e := e) <| by
      by_cases hp : q ++ [name] = place <;> simp [hp] at hq
      exact hq
    have hne : q ≠ place := fun he => by simp [he, hf] at hd
    simpa [hne] using hd
  · intro q hd
    have hne : q ≠ place := fun he => by simp [he, hf] at hd
    simpa [hg, hne] using hd
  · intro q
    by_cases hq : q = place <;> simp [Tree.bytesAt, hg, hq]

end Became

end Tree

end GraphqlArtifacts
