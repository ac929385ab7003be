import Mathlib.Data.List.Induction
import Mathlib.Data.List.Nodup
import Mathlib.Data.List.Pairwise
import GraphqlArtifacts.Proofs.Graphql.Names
import GraphqlArtifacts.Validation.Basic

namespace GraphqlArtifacts

theorem nodup_eraseDups {α : Type} [BEq α] [LawfulBEq α] (l : List α) : l.eraseDups.Nodup := by
  cases l
  case nil => simp
  case cons a l =>
    rw [List.eraseDups_cons, List.nodup_cons]
    refine ⟨by simp [List.mem_eraseDups], nodup_eraseDups _⟩
termination_by l.length
decreasing_by exact Nat.lt_succ_of_le <| List.length_filter_le ..

section

variable {α β : Type} {key : α → Option β} {l : List α} {a a' : α} {b : β}

-- Keys that are never among those before them are all different.
theorem nodup_filterMap_of_fresh
    (h : ∀ before a after, l = before ++ a :: after → ∀ b, key a = some b →
      b ∉ before.filterMap key) : (l.filterMap key).Nodup := by
  induction l using List.reverseRecOn
  case nil => simp
  case append_singleton l a hi =>
    have hl : (l.filterMap key).Nodup := hi fun before a' after he b hb =>
      h before a' (after ++ [a]) (by simp [he]) b hb
    have ha : ∀ b, key a = some b → b ∉ l.filterMap key := h l a [] rfl
    rw [List.filterMap_append, List.nodup_append]
    refine ⟨hl, ?_, ?_⟩
    case refine_1 => cases hk : key a <;> simp [hk]
    case refine_2 =>
      intro b hb b' hb' he
      have hk : key a = some b' := by simpa using hb'
      exact ha b' hk <| he ▸ hb

theorem eq_of_nodup_filterMap (h : (l.filterMap key).Nodup) (ha : a ∈ l) (ha' : a' ∈ l)
    (hk : key a = some b) (hk' : key a' = some b) : a = a' := by
  rw [List.nodup_iff_pairwise_ne, List.pairwise_filterMap] at h
  have : Std.Symm fun a a' => ∀ b, key a = some b → ∀ b', key a' = some b' → b ≠ b' :=
    ⟨fun _ _ hr b hb b' hb' => (hr b' hb' b hb).symm⟩
  by_contra hne
  exact h.forall ha ha' hne b hk b hk' rfl

end

namespace Graphql.Definition

def operationName? (d : Definition) : Option String :=
  d.operation?.bind (·.name)

def fragmentName? (d : Definition) : Option String :=
  d.fragment?.map (·.name)

end Graphql.Definition

namespace Validation

open Graphql (Document Definition Operation Fragment)

variable {s : Schema} {d before after : Document} {o o' : Operation} {f : Fragment}
  {v : Visit} {visits : List Visit} {compared : Conflict.Compared}

theorem faultsAt_eq_nil (h : faultsAt s d compared visits = []) (hv : v ∈ visits) :
    v.faults s d = [] := by
  induction visits generalizing compared
  case nil => cases hv
  case cons first visits hi =>
    cases first
    case selections =>
      obtain rfl | hv := List.mem_cons.mp hv
      case inl => rfl
      case inr =>
        simp only [faultsAt] at h
        split at h
        case h_1 => exact hi (List.append_eq_nil_iff.mp h).right hv
        case h_2 => exact hi h hv
    all_goals
      have ⟨hf, hrest⟩ := List.append_eq_nil_iff.mp h
      obtain rfl | hv := List.mem_cons.mp hv
      case inl => exact hf
      case inr => exact hi hrest hv

-- Documents without faults have none at any visit.
theorem faults_eq_nil (h : faults s d = []) (hv : v ∈ Visit.ofDocument s d) :
    v.faults s d = [] := by
  simp only [faults] at h
  split at h
  case isTrue  => simp at h
  case isFalse => exact faultsAt_eq_nil h hv

theorem ofDefinitions_subset (earlier : Document) :
    Visit.ofDefinitions s (earlier ++ before) after ⊆
      Visit.ofDefinitions s earlier (before ++ after) := by
  induction before generalizing earlier
  case nil => simp
  case cons d before hi =>
    rw [List.append_cons]
    exact List.subset_append_of_subset_right _ <| hi (earlier ++ [d])

theorem operation_faults (h : faults s d = []) (he : d = before ++ .operation o :: after) :
    (Visit.operation before o).faults s d = [] := by
  refine faults_eq_nil h ?_
  rw [he]
  exact ofDefinitions_subset [] <| by simp [Visit.ofDefinitions, Visit.ofOperation]

theorem fragment_faults (h : faults s d = []) (he : d = before ++ .fragment f :: after) :
    (Visit.fragment before f).faults s d = [] := by
  refine faults_eq_nil h ?_
  rw [he]
  exact ofDefinitions_subset [] <| by simp [Visit.ofDefinitions, Visit.ofFragment]

theorem when_eq_nil {condition : Bool} {fault : ValidationFault} :
    Rule.when condition fault = [] ↔ ¬ condition := by
  cases condition <;> simp [Rule.when]

-- Operations in documents without faults have different names.
theorem nodup_operationNames (h : faults s d = []) :
    (d.filterMap Definition.operationName?).Nodup := by
  refine nodup_filterMap_of_fresh fun before definition after he name hn => ?_
  cases definition
  case operation o =>
    have hf := operation_faults h he
    simp only [Visit.faults, List.append_eq_nil_iff] at hf
    have hu := hf.left.left.left
    replace hn : o.name = some name := hn
    simp only [Rule.uniqueOperationName, hn, when_eq_nil, List.filterMap_filterMap] at hu
    simpa [Definition.operationName?] using hu
  all_goals cases hn

-- Fragments in documents without faults have different names.
theorem nodup_fragmentNames (h : faults s d = []) :
    (d.filterMap Definition.fragmentName?).Nodup := by
  refine nodup_filterMap_of_fresh fun before definition after he name hn => ?_
  cases definition
  case fragment f =>
    have hf := fragment_faults h he
    simp only [Visit.faults, List.append_eq_nil_iff] at hf
    have hu := hf.left.right
    obtain rfl : f.name = name := Option.some.inj hn
    simp only [Rule.uniqueFragmentName, when_eq_nil, List.any_eq_true, beq_iff_eq] at hu
    intro hm
    obtain ⟨definition, hd, hk⟩ := List.mem_filterMap.mp hm
    obtain ⟨g, hg, hname⟩ := Option.map_eq_some_iff.mp hk
    exact hu ⟨g, List.mem_filterMap.mpr ⟨definition, hd, hg⟩, hname⟩
  all_goals cases hn

-- An operation without a name in documents without faults is the only one.
theorem anonymous_alone (h : faults s d = []) (hm : .operation o ∈ d) (hn : o.name = none)
    (hm' : .operation o' ∈ d) : o' = o := by
  obtain ⟨before, after, he⟩ := List.append_of_mem hm
  have hf := operation_faults h he
  simp only [Visit.faults, List.append_eq_nil_iff] at hf
  have hu := hf.left.left.right
  simp only [Rule.loneAnonymous, when_eq_nil, hn, Option.isNone_none, Bool.true_and,
    decide_eq_true_eq] at hu
  have ho : o ∈ d.filterMap Definition.operation? := List.mem_filterMap.mpr ⟨_, hm, rfl⟩
  have ho' : o' ∈ d.filterMap Definition.operation? := List.mem_filterMap.mpr ⟨_, hm', rfl⟩
  rcases hl : d.filterMap Definition.operation? with _ | ⟨only, _ | ⟨second, rest⟩⟩
  case nil => simp [hl] at ho
  case cons.nil =>
    rw [hl, List.mem_singleton] at ho ho'
    exact ho'.trans ho.symm
  case cons.cons => simp [hl] at hu

end Validation

end GraphqlArtifacts
