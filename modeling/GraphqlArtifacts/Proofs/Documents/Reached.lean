import Mathlib.Data.List.Perm.Subperm
import GraphqlArtifacts.Documents.Fragments
import GraphqlArtifacts.Proofs.Validation.Unique

namespace GraphqlArtifacts.Graphql

-- A name that is spread in selections, or in a fragment that such a name stands for.
inductive Reaches (d : Document) (selections : List Selection) : String → Prop
  | here {name : String} (h : name ∈ spreadsIn selections) : Reaches d selections name
  | through {name name' : String} {f : Fragment} (hr : Reaches d selections name)
      (hf : fragment? d name = some f) (h : name' ∈ spreadsIn f.selections) :
      Reaches d selections name'

variable {d : Document} {selections root : List Selection} {pending : List (List Selection)}
  {seen : List String} {out : List Fragment} {fuel : Nat} {f : Fragment} {name name' : String}

theorem mem_of_fragment? (h : fragment? d name = some f) : .fragment f ∈ d ∧ f.name = name := by
  have hm := List.mem_reverse.mp <| List.mem_of_find?_eq_some h
  obtain ⟨definition, hd, hf⟩ := List.mem_filterMap.mp hm
  cases definition
  case fragment g =>
    obtain rfl : g = f := Option.some_inj.mp hf
    exact ⟨hd, by simpa using List.find?_some h⟩
  all_goals cases hf

-- The names in selections that were not seen before, and the fragments that they stand for.

def fresh (seen : List String) (selections : List Selection) : List String :=
  (spreadsIn selections).eraseDups.filter (!seen.contains ·)

def found (d : Document) (seen : List String) (selections : List Selection) : List Fragment :=
  (fresh seen selections).filterMap (fragment? d)

theorem mem_fresh : name ∈ fresh seen selections ↔ name ∈ spreadsIn selections ∧ name ∉ seen := by
  simp [fresh, List.mem_eraseDups]

theorem mem_found : f ∈ found d seen selections ↔
    ∃ name ∈ spreadsIn selections, name ∉ seen ∧ fragment? d name = some f := by
  simp [found, mem_fresh, and_assoc]

theorem mem_of_found (h : f ∈ found d seen selections) :
    .fragment f ∈ d ∧ f.name ∈ fresh seen selections := by
  obtain ⟨name, hn, hs, hf⟩ := mem_found.mp h
  obtain ⟨hd, rfl⟩ := mem_of_fragment? hf
  exact ⟨hd, mem_fresh.mpr ⟨hn, hs⟩⟩

theorem reachedFrom_cons : reachedFrom d (fuel + 1) seen (selections :: pending) =
    found d seen selections ++ reachedFrom d fuel (seen ++ fresh seen selections)
      (((found d seen selections).map (·.selections)).reverse ++ pending) :=
  rfl

theorem reachedFrom_nil : reachedFrom d fuel seen [] = [] := by
  cases fuel <;> rfl

theorem found_names : (found d seen selections).map (·.name) =
    (fresh seen selections).filter fun name => (fragment? d name).isSome := by
  unfold found
  induction fresh seen selections
  case nil => rfl
  case cons name names hi =>
    cases hf : fragment? d name
    case none   => simp [hf, hi]
    case some f => simp [hf, hi, (mem_of_fragment? hf).right]

theorem nodup_fresh : (fresh seen selections).Nodup :=
  (nodup_eraseDups _).filter _

theorem nodup_found_names : ((found d seen selections).map (·.name)).Nodup :=
  found_names ▸ nodup_fresh.filter _

-- All that is found is reached

theorem reaches_of_mem (hp : ∀ s ∈ pending, ∀ name ∈ spreadsIn s, Reaches d root name)
    (hm : f ∈ reachedFrom d fuel seen pending) :
    ∃ name, Reaches d root name ∧ fragment? d name = some f := by
  induction fuel generalizing seen pending
  case zero => cases hm
  case succ fuel hi =>
    cases pending
    case nil => cases hm
    case cons selections pending =>
      rw [List.forall_mem_cons] at hp
      have hfound {g : Fragment} (hg : g ∈ found d seen selections) :
          ∃ name, Reaches d root name ∧ fragment? d name = some g := by
        obtain ⟨name, hn, _, hf⟩ := mem_found.mp hg
        exact ⟨name, hp.left name hn, hf⟩
      rw [reachedFrom_cons, List.mem_append] at hm
      cases hm
      case inl hm => exact hfound hm
      case inr hm =>
        refine hi (List.forall_mem_append.mpr ⟨?_, hp.right⟩) hm
        simp only [List.mem_reverse, List.forall_mem_map]
        intro g hg name hn
        have ⟨_, hr, hf⟩ := hfound hg
        exact hr.through hf hn

-- All that is reached is found

-- The names of the fragments that were not seen before.
def unseen (d : Document) (seen : List String) : List String :=
  (d.filterMap Definition.fragmentName?).filter (!seen.contains ·)

theorem length_fragmentNames : (d.filterMap Definition.fragmentName?).length =
    (d.filterMap Definition.fragment?).length := by
  have hnames : d.filterMap Definition.fragmentName? =
      (d.filterMap Definition.fragment?).map (·.name) := by
    rw [List.map_filterMap]
    rfl
  rw [hnames, List.length_map]

theorem mem_unseen : name ∈ unseen d seen ↔
    name ∈ d.filterMap Definition.fragmentName? ∧ name ∉ seen := by
  simp [unseen]

theorem length_found_le : (found d seen selections).length +
    (unseen d (seen ++ fresh seen selections)).length ≤ (unseen d seen).length := by
  have hsplit := List.length_eq_length_filter_add (l := unseen d seen)
    ((fresh seen selections).contains ·)
  have hrest : (unseen d seen).filter (!(fresh seen selections).contains ·) =
      unseen d (seen ++ fresh seen selections) := by
    simp [unseen, List.filter_filter, Bool.and_comm]
  have hsub : (found d seen selections).map (·.name) ⊆
      (unseen d seen).filter ((fresh seen selections).contains ·) := by
    refine List.forall_mem_map.mpr fun f hf => ?_
    have ⟨hd, hfresh⟩ := mem_of_found hf
    have hname : f.name ∈ unseen d seen :=
      mem_unseen.mpr ⟨List.mem_filterMap.mpr ⟨_, hd, rfl⟩, (mem_fresh.mp hfresh).right⟩
    exact List.mem_filter.mpr ⟨hname, by simpa using hfresh⟩
  have hle := (List.Nodup.subperm nodup_found_names hsub).length_le
  rw [List.length_map] at hle
  rw [hsplit, hrest]
  omega

-- Each name that is spread was seen, or what it stands for is found.
def Covers (d : Document) (seen : List String) (out : List Fragment)
    (selections : List Selection) : Prop :=
  ∀ name ∈ spreadsIn selections, name ∈ seen ∨ ∀ f, fragment? d name = some f → f ∈ out

theorem covers_found : Covers d seen (found d seen selections ++ out) selections := by
  intro name hn
  by_cases hs : name ∈ seen
  case pos => exact .inl hs
  case neg => exact .inr fun f hf => List.mem_append_left _ <| mem_found.mpr ⟨name, hn, hs, hf⟩

theorem Covers.found {selections' : List Selection}
    (h : Covers d (seen ++ fresh seen selections) out selections') :
    Covers d seen (found d seen selections ++ out) selections' := by
  intro name hn
  obtain hseen | hout := h name hn
  case inr => exact .inr fun f hf => List.mem_append_right _ <| hout f hf
  case inl =>
    obtain hs | hfresh := List.mem_append.mp hseen
    case inl => exact .inl hs
    case inr => exact covers_found name (mem_fresh.mp hfresh).left

-- The fuel is for the selections to follow, and for those of each fragment that was not seen.
theorem reachedFrom_covers (hf : pending.length + (unseen d seen).length ≤ fuel) :
    (∀ s ∈ pending, Covers d seen (reachedFrom d fuel seen pending) s) ∧
      ∀ f ∈ reachedFrom d fuel seen pending,
        Covers d seen (reachedFrom d fuel seen pending) f.selections := by
  induction fuel generalizing seen pending
  case zero =>
    obtain rfl : pending = [] := List.length_eq_zero_iff.mp <| by omega
    simp [reachedFrom_nil]
  case succ fuel hi =>
    cases pending
    case nil => simp [reachedFrom_nil]
    case cons selections pending =>
      have hlength := @length_found_le d selections seen
      have ⟨hpending, hout⟩ := @hi (((found d seen selections).map (·.selections)).reverse ++ pending)
        (seen ++ fresh seen selections) <| by simp at hf ⊢; omega
      rw [reachedFrom_cons]
      simp only [List.forall_mem_append, List.mem_reverse, List.forall_mem_map] at hpending
      exact ⟨List.forall_mem_cons.mpr ⟨covers_found, fun s hs => (hpending.right s hs).found⟩,
        List.forall_mem_append.mpr
          ⟨fun f hf => (hpending.left f hf).found, fun f hf => (hout f hf).found⟩⟩

-- The fragments that are found are those that reached names stand for.
theorem mem_reachedFragments_iff : f ∈ reachedFragments d selections ↔
    ∃ name, Reaches d selections name ∧ fragment? d name = some f := by
  constructor
  case mp => exact reaches_of_mem <| by simpa using fun name hn => .here hn
  case mpr =>
    have hlength : [selections].length + (unseen d []).length ≤
        (d.filterMap Definition.fragment?).length + 1 := by
      rw [unseen, List.filter_eq_self.mpr (by simp), length_fragmentNames, List.length_singleton,
        Nat.add_comm]
    have ⟨hpending, hout⟩ := reachedFrom_covers hlength
    have hcovered {s : List Selection} {name : String} {f : Fragment}
        (h : Covers d [] (reachedFragments d selections) s) (hn : name ∈ spreadsIn s)
        (hf : fragment? d name = some f) : f ∈ reachedFragments d selections :=
      (h name hn).resolve_left List.not_mem_nil f hf
    rintro ⟨name, hr, hf⟩
    induction hr generalizing f
    case here hn => exact hcovered (hpending _ <| List.mem_singleton_self _) hn hf
    case through hg hn hi => exact hcovered (hout _ <| hi hg) hn hf

theorem nodup_reachedFrom : ((reachedFrom d fuel seen pending).map (·.name)).Nodup ∧
    ∀ f ∈ reachedFrom d fuel seen pending, f.name ∉ seen := by
  induction fuel generalizing seen pending
  case zero => simp [reachedFrom]
  case succ fuel hi =>
    cases pending
    case nil => simp [reachedFrom_nil]
    case cons selections pending =>
      have ⟨hnodup, hnew⟩ := @hi
        (((found d seen selections).map (·.selections)).reverse ++ pending)
        (seen ++ fresh seen selections)
      simp only [List.mem_append, not_or] at hnew
      have hfound (f) (hf : f ∈ found d seen selections) : f.name ∈ fresh seen selections :=
        (mem_of_found hf).right
      rw [reachedFrom_cons, List.map_append, List.nodup_append, List.forall_mem_append]
      refine ⟨⟨nodup_found_names, hnodup, ?_⟩, fun f hf => (mem_fresh.mp <| hfound f hf).right,
        fun f hf => (hnew f hf).left⟩
      simp only [List.forall_mem_map]
      exact fun f hf g hg he => (hnew g hg).right <| he ▸ hfound f hf

theorem nodup_reachedFragments : ((reachedFragments d selections).map (·.name)).Nodup :=
  nodup_reachedFrom.left

end GraphqlArtifacts.Graphql
