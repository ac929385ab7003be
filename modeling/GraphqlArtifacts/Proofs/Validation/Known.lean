import GraphqlArtifacts.Proofs.Documents.Reached

namespace GraphqlArtifacts

open Graphql (Document Definition Operation Fragment Selection VariableDefinition)

variable {s s' : Schema} {d d' : Document} {o : Operation} {f : Fragment} {definition : Definition}
  {name : String}

namespace Graphql

def Definition.selections : Definition → List Selection
  | .operation o => o.selections
  | .fragment f  => f.selections
  | _            => []

theorem mem_joinSpreads_cons {selection : Selection} {rest : List Selection} :
    name ∈ joinSpreads (splitSpreads (selection :: rest)) ↔
      name ∈ joinSpreads selection.spreads ∨ name ∈ joinSpreads (splitSpreads rest) := by
  simp only [splitSpreads, joinSpreads, List.mem_append]
  grind

end Graphql

open Graphql (joinSpreads splitSpreads spreadsIn fragment? reachedFragments Reaches)

namespace Visit

mutual

-- A walk through selections meets all spreads in them.
theorem spread_mem_ofSelection : (selection : Selection) → ∀ parent around,
    ∀ name ∈ joinSpreads selection.spreads,
      ∃ above, .spread above name ∈ ofSelection s parent around selection
  | .field _ key _ _ inner, parent, around, name, hn => by
    have hn : name ∈ joinSpreads (splitSpreads inner) := by
      simpa [Selection.spreads, joinSpreads] using hn
    have hne : inner ≠ [] := by
      rintro rfl
      simp [splitSpreads, joinSpreads] at hn
    let asked := parent.bind fun p => s.selectedField? p key
    have ⟨above, hm⟩ := spread_mem_ofSelections inner
      (asked.bind fun f => s.compositeType? f.type.baseName) asked name hn
    exact ⟨above, by simp [ofSelection, hne, hm, asked]⟩
  | .inlineFragment condition _ inner, parent, around, name, hn => by
    have hn : name ∈ joinSpreads (splitSpreads inner) := by
      simpa [Selection.spreads, joinSpreads] using hn
    cases condition
    case none =>
      have ⟨above, hm⟩ := spread_mem_ofSelections inner parent around name hn
      exact ⟨above, by simp [ofSelection, hm]⟩
    case some condition =>
      have ⟨above, hm⟩ := spread_mem_ofSelections inner (s.compositeType? condition) around name hn
      exact ⟨above, by simp [ofSelection, hm]⟩
  | .spread named _, parent, around, name, hn => by
    obtain rfl : name = named := by simpa [Selection.spreads, joinSpreads] using hn
    exact ⟨parent, List.mem_cons_self ..⟩

theorem spread_mem_ofSelections : (selections : List Selection) → ∀ parent around,
    ∀ name ∈ joinSpreads (splitSpreads selections),
      ∃ above, .spread above name ∈ ofSelections s parent around selections
  | [], parent, around, name, hn => by simp [splitSpreads, joinSpreads] at hn
  | selection :: rest, parent, around, name, hn => by
    simp only [ofSelections, List.mem_append]
    obtain hn | hn := Graphql.mem_joinSpreads_cons.mp hn
    case inl =>
      have ⟨above, hm⟩ := spread_mem_ofSelection selection parent around name hn
      exact ⟨above, .inl hm⟩
    case inr =>
      have ⟨above, hm⟩ := spread_mem_ofSelections rest parent around name hn
      exact ⟨above, .inr hm⟩

end

theorem ofOperation_subset (hm : .operation o ∈ d) :
    ∃ before, ofOperation s before o ⊆ ofDocument s d := by
  obtain ⟨before, after, rfl⟩ := List.append_of_mem hm
  have hsub := @Validation.ofDefinitions_subset s before (.operation o :: after) []
  exact ⟨_, List.Subset.trans (List.subset_append_left ..) hsub⟩

theorem ofFragment_subset (hm : .fragment f ∈ d) :
    ∃ before isNamed, ofFragment s before isNamed f ⊆ ofDocument s d := by
  obtain ⟨before, after, rfl⟩ := List.append_of_mem hm
  have hsub := @Validation.ofDefinitions_subset s before (.fragment f :: after) []
  exact ⟨_, _, List.Subset.trans (List.subset_append_left ..) hsub⟩

end Visit

namespace Validation

-- A spread in documents without faults is of a fragment that is there.
theorem isSome_fragment? (h : faults s d = []) (hm : definition ∈ d)
    (hn : name ∈ spreadsIn definition.selections) : (fragment? d name).isSome := by
  have hvisit : ∃ above, .spread above name ∈ Visit.ofDocument s d := by
    cases definition
    case operation o =>
      obtain ⟨before, hsub⟩ := @Visit.ofOperation_subset s d o hm
      obtain ⟨above, hv⟩ := @Visit.spread_mem_ofSelections s o.selections
        ((s.rootType? o.kind).filter (·.isObject)) none name hn
      exact ⟨above, hsub <| by simp [Visit.ofOperation, hv]⟩
    case fragment f =>
      obtain ⟨before, isNamed, hsub⟩ := @Visit.ofFragment_subset s d f hm
      obtain ⟨above, hv⟩ := @Visit.spread_mem_ofSelections s f.selections
        (s.compositeType? f.typeCondition) none name hn
      exact ⟨above, hsub <| by simp [Visit.ofFragment, hv]⟩
    all_goals cases hn
  obtain ⟨above, hv⟩ := hvisit
  have hf := (List.append_eq_nil_iff.mp <| faults_eq_nil h hv).left
  simpa [Rule.knownFragment, when_eq_nil, Option.isSome_iff_ne_none] using hf

-- In documents without faults a name stands for just one fragment.
theorem fragment?_of_mem (h : faults s d = []) (hm : .fragment f ∈ d) :
    fragment? d f.name = some f := by
  have hsome : (fragment? d f.name).isSome := by
    rw [fragment?, List.find?_isSome]
    exact ⟨f, List.mem_reverse.mpr <| List.mem_filterMap.mpr ⟨_, hm, rfl⟩, by simp⟩
  obtain ⟨g, hg⟩ := Option.isSome_iff_exists.mp hsome
  have ⟨hd, hname⟩ := Graphql.mem_of_fragment? hg
  have he := eq_of_nodup_filterMap (nodup_fragmentNames h) hd hm
    (by simp [Definition.fragmentName?, Definition.fragment?, hname]) rfl
  obtain rfl : g = f := by simpa using he
  exact hg

-- The variables of operations without faults have types of the schema.
theorem resolves_variable {v : VariableDefinition} (h : faults s d = [])
    (hm : .operation o ∈ d) (hv : v ∈ o.variableDefinitions) : s.resolves v.type := by
  have ⟨before, hsub⟩ := @Visit.ofOperation_subset s d o hm
  have hvisit : .typeName v.type.baseName ∈ Visit.ofOperation s before o := by
    have hmem : Visit.typeName v.type.baseName ∈ Visit.ofVariableDefinition s v := by
      simp [Visit.ofVariableDefinition]
    have := List.mem_flatMap.mpr ⟨v, hv, hmem⟩
    simp [Visit.ofOperation, this]
  have hf := faults_eq_nil h (hsub hvisit)
  simpa [Visit.faults, Rule.knownType, when_eq_nil, Schema.resolves, Option.isSome_iff_ne_none]
    using hf

-- What is reached in documents without faults

section

variable (h : faults s d = []) (hm : definition ∈ d)

include h hm

theorem exists_reached (hr : Reaches d definition.selections name) :
    ∃ f, fragment? d name = some f := by
  rw [← Option.isSome_iff_exists]
  cases hr
  case here hn         => exact isSome_fragment? h hm hn
  case through _ hf hn => exact isSome_fragment? h (Graphql.mem_of_fragment? hf).left hn

variable (h' : faults s' d' = [])
  (hagree : ∀ name f, Reaches d definition.selections name → fragment? d name = some f →
    .fragment f ∈ d')

include h' hagree

theorem fragment?_agrees (hr : Reaches d definition.selections name) :
    fragment? d' name = fragment? d name := by
  obtain ⟨f, hf⟩ := exists_reached h hm hr
  have hf' := fragment?_of_mem h' <| hagree name f hr hf
  rw [hf, ← hf', (Graphql.mem_of_fragment? hf).right]

-- Documents that have all the fragments that others reach reach the same.
theorem reaches_agrees :
    Reaches d' definition.selections name ↔ Reaches d definition.selections name := by
  constructor
  case mp =>
    intro hr
    induction hr
    case here hn => exact .here hn
    case through hf hn hr =>
      rw [fragment?_agrees h hm h' hagree hr] at hf
      exact hr.through hf hn
  case mpr =>
    intro hr
    induction hr
    case here hn => exact .here hn
    case through hd hf hn hr =>
      rw [← fragment?_agrees h hm h' hagree hd] at hf
      exact hr.through hf hn

theorem mem_reachedFragments_agrees :
    f ∈ reachedFragments d' definition.selections ↔
      f ∈ reachedFragments d definition.selections := by
  rw [Graphql.mem_reachedFragments_iff, Graphql.mem_reachedFragments_iff]
  refine exists_congr fun name => ?_
  rw [reaches_agrees h hm h' hagree]
  refine and_congr_right fun hr => ?_
  rw [fragment?_agrees h hm h' hagree hr]

end

end Validation

end GraphqlArtifacts
