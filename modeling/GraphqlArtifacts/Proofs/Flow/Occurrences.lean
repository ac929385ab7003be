import Mathlib.Data.List.Basic
import GraphqlArtifacts.Flow.Types

namespace GraphqlArtifacts

open Graphql (Selection)

namespace Graphql

-- The response paths that selections select through fields and fragments inside of them.
inductive Selects : List Selection → List String → Prop
  | here   (h : .field renamed name arguments directives nested ∈ selections) :
      Selects selections [renamed.getD name]
  | inside (h : .field renamed name arguments directives nested ∈ selections)
      (hs : Selects nested path) : Selects selections (renamed.getD name :: path)
  | within (h : .inlineFragment condition directives nested ∈ selections)
      (hs : Selects nested path) : Selects selections path

theorem Selects.mono {selections more : List Selection} {path : List String}
    (h : Selects selections path) (hs : selections ⊆ more) : Selects more path := by
  cases h
  case here h      => exact .here (hs h)
  case inside hp h => exact .inside (hs h) hp
  case within h hp => exact .within (hs h) hp

theorem Selects.ne_nil {selections : List Selection} {path : List String}
    (h : Selects selections path) : path ≠ [] := by
  induction h <;> simp_all

mutual

def pathsOf : Selection → List (List String)
  | .field renamed name _ _ inner =>
    [renamed.getD name] :: (paths inner).map (renamed.getD name :: ·)
  | .inlineFragment _ _ inner => paths inner
  | .spread .. => []

-- All paths that selections select.
def paths : List Selection → List (List String)
  | [] => []
  | selection :: rest => pathsOf selection ++ paths rest

end

theorem mem_paths_of_mem {selection : Selection} {selections : List Selection} {path : List String}
    (h : selection ∈ selections) (hp : path ∈ pathsOf selection) : path ∈ paths selections := by
  induction selections
  case nil => cases h
  case cons hd tl hi =>
    cases h
    case head   => exact List.mem_append_left _ hp
    case tail h => exact List.mem_append_right _ <| hi h

theorem Selects.mem_paths {selections : List Selection} {path : List String}
    (h : Selects selections path) : path ∈ paths selections := by
  induction h
  case here h        => exact mem_paths_of_mem h <| .head _
  case inside h _ hi => exact mem_paths_of_mem h <| .tail _ <| List.mem_map_of_mem hi
  case within h _ hi => exact mem_paths_of_mem h <| by simpa [pathsOf] using hi

mutual

theorem selects_of_mem_pathsOf : (selection : Selection) → ∀ path ∈ pathsOf selection,
    Selects [selection] path
  | .field .., path, h => by
    cases h
    case head   => exact .here (.head _)
    case tail h =>
      have ⟨path, hp, he⟩ := List.mem_map.mp h
      exact he ▸ .inside (.head _) (selects_of_mem_paths _ path hp)
  | .inlineFragment .., path, h => .within (.head _) (selects_of_mem_paths _ path h)
  | .spread .., _, h => by cases h

theorem selects_of_mem_paths : (selections : List Selection) → ∀ path ∈ paths selections,
    Selects selections path
  | [], _, h => by cases h
  | selection :: rest, path, h => by
    cases List.mem_append.mp h
    case inl h => exact (selects_of_mem_pathsOf selection path h).mono <| by simp
    case inr h => exact (selects_of_mem_paths rest path h).mono <| List.subset_cons_self ..

end

theorem mem_paths_iff {selections : List Selection} {path : List String} :
    path ∈ paths selections ↔ Selects selections path :=
  ⟨selects_of_mem_paths _ _, Selects.mem_paths⟩

end Graphql

open Graphql (Selects)

namespace Flow

-- A field among selections: its response key, what the type that it is selected on says of it, and
-- its own selections. The name of the type is a field that no type defines.
structure Occurrence where
  key : String
  field? : Option Schema.Field
  selections : List Selection

variable {s : Schema} {parent : Option Schema.NamedType} {selections : List Selection}
  {o : Occurrence} {key : String} {path : List String}

def definedField? (parent : Option Schema.NamedType) (name : String) : Option Schema.Field :=
  if name = "__typename" then none else parent.bind (·.field? name)

mutual

-- The fields among selections on a type, in order. Fragments inside of the selections are seen
-- through, but those that have a name are not.
def occurrencesOf (s : Schema) (parent : Option Schema.NamedType) : Selection → List Occurrence
  | .field renamed name _ _ inner => [⟨renamed.getD name, definedField? parent name, inner⟩]
  | .inlineFragment condition _ inner => occurrences s (conditionType s parent condition) inner
  | .spread .. => []

def occurrences (s : Schema) (parent : Option Schema.NamedType) :
    List Selection → List Occurrence
  | [] => []
  | selection :: rest => occurrencesOf s parent selection ++ occurrences s parent rest

end

theorem mem_occurrences_iff :
    o ∈ occurrences s parent selections ↔
      ∃ selection ∈ selections, o ∈ occurrencesOf s parent selection := by
  induction selections
  case nil         => simp [occurrences]
  case cons _ _ hi => simp [occurrences, hi]

mutual

theorem selects_of_mem_occurrencesOf : (selection : Selection) → ∀ parent o,
    o ∈ occurrencesOf s parent selection →
      Selects [selection] [o.key] ∧ ∀ path, Selects o.selections path →
        Selects [selection] (o.key :: path)
  | .field .., parent, o, h => by
    have h := List.mem_singleton.mp h
    rw [h]
    exact ⟨.here (List.mem_singleton_self _), fun _ => .inside (List.mem_singleton_self _)⟩
  | .inlineFragment condition _ inner, parent, o, h => by
    have ⟨hk, hp⟩ := selects_of_mem_occurrences inner (conditionType s parent condition) o h
    exact ⟨.within (List.mem_singleton_self _) hk, fun path hs =>
      .within (List.mem_singleton_self _) (hp path hs)⟩
  | .spread .., _, _, h => by cases h

theorem selects_of_mem_occurrences : (selections : List Selection) → ∀ parent o,
    o ∈ occurrences s parent selections →
      Selects selections [o.key] ∧ ∀ path, Selects o.selections path →
        Selects selections (o.key :: path)
  | [], _, _, h => by cases h
  | selection :: rest, parent, o, h => by
    cases List.mem_append.mp h
    case inl h =>
      have ⟨hk, hp⟩ := selects_of_mem_occurrencesOf selection parent o h
      have hsub : [selection] ⊆ selection :: rest := by simp
      exact ⟨hk.mono hsub, fun path hs => (hp path hs).mono hsub⟩
    case inr h =>
      have ⟨hk, hp⟩ := selects_of_mem_occurrences rest parent o h
      have hsub := List.subset_cons_self selection rest
      exact ⟨hk.mono hsub, fun path hs => (hp path hs).mono hsub⟩

end

-- A path is selected by the fields that have its first key.
theorem selects_iff (s : Schema) (parent : Option Schema.NamedType) :
    Selects selections path ↔ ∃ o ∈ occurrences s parent selections, ∃ rest,
      path = o.key :: rest ∧ (rest = [] ∨ Selects o.selections rest) := by
  constructor
  case mp =>
    intro h
    induction h generalizing parent
    case here renamed name _ _ inner h =>
      refine ⟨⟨renamed.getD name, definedField? parent name, inner⟩, ?_, [], rfl, .inl rfl⟩
      exact mem_occurrences_iff.mpr ⟨_, h, List.mem_singleton_self _⟩
    case inside inner rest renamed name _ _ h hs _ =>
      refine ⟨⟨renamed.getD name, definedField? parent name, inner⟩, ?_, rest, rfl, .inr hs⟩
      exact mem_occurrences_iff.mpr ⟨_, h, List.mem_singleton_self _⟩
    case within condition _ h _ hi =>
      have ⟨o, hm, hp⟩ := @hi (conditionType s parent condition)
      exact ⟨o, mem_occurrences_iff.mpr ⟨_, h, hm⟩, hp⟩
  case mpr =>
    intro ⟨o, hm, rest, hp, hr⟩
    have ⟨hk, hs⟩ := selects_of_mem_occurrences selections parent o hm
    subst hp
    cases hr
    case inl hr => exact hr ▸ hk
    case inr hr => exact hs rest hr

theorem selects_cons_iff (s : Schema) (parent : Option Schema.NamedType) :
    Selects selections (key :: path) ↔
      ∃ o ∈ occurrences s parent selections,
        o.key = key ∧ (path = [] ∨ Selects o.selections path) := by
  rw [selects_iff s parent]
  constructor
  · intro ⟨o, hm, rest, hp, hr⟩
    cases hp
    exact ⟨o, hm, rfl, hr⟩
  · intro ⟨o, hm, hk, hr⟩
    exact ⟨o, hm, path, hk ▸ rfl, hr⟩

mutual

theorem sizeOf_selections_lt_of_mem_occurrencesOf : (selection : Selection) → ∀ parent o,
    o ∈ occurrencesOf s parent selection → sizeOf o.selections < sizeOf selection
  | .field .., _, _, h => by
    rw [List.mem_singleton.mp h]
    simp only [Selection.field.sizeOf_spec]
    omega
  | .inlineFragment condition _ inner, parent, o, h => by
    have hl := sizeOf_selections_lt_of_mem_occurrences inner (conditionType s parent condition) o h
    simp only [Selection.inlineFragment.sizeOf_spec]
    omega
  | .spread .., _, _, h => by cases h

-- The selections of a field are smaller than those that it is among.
theorem sizeOf_selections_lt_of_mem_occurrences : (selections : List Selection) → ∀ parent o,
    o ∈ occurrences s parent selections → sizeOf o.selections < sizeOf selections
  | [], _, _, h => by cases h
  | selection :: rest, parent, o, h => by
    simp only [List.cons.sizeOf_spec]
    cases List.mem_append.mp h
    case inl h =>
      have := sizeOf_selections_lt_of_mem_occurrencesOf selection parent o h
      omega
    case inr h =>
      have := sizeOf_selections_lt_of_mem_occurrences rest parent o h
      omega

end

end Flow

end GraphqlArtifacts
