import GraphqlArtifacts.Proofs.Artifacts.Locality
import GraphqlArtifacts.Proofs.Flow.Members

namespace GraphqlArtifacts

open Graphql (Document Definition Selection Selects)

namespace Flow

-- At each place that is reached through first fields, the first field with a key selects below it
-- all that any field with the key selects, and that is nothing unless its type defines the field.
inductive FirstsCover (s : Schema) : Option Schema.NamedType → List Selection → Prop
  | intro
      (later : ∀ key o, first? s parent selections key = some o →
        ∀ o' ∈ occurrences s parent selections, o'.key = key →
          ∀ path, Selects o'.selections path → Selects o.selections path)
      (defined : ∀ key o, first? s parent selections key = some o →
        ∀ path, Selects o.selections path → o.field?.isSome)
      (inside : ∀ key o f, first? s parent selections key = some o → o.field? = some f →
        FirstsCover s (s.type? f.type.baseName) o.selections) :
      FirstsCover s parent selections

variable {s : Schema} {options : TypeOptions} {parent : Option Schema.NamedType}
  {selections : List Selection} {o : Occurrence} {key : String} {path : List String}
  {d : Document} {definition : Definition} {name : String}

theorem mem_of_first? (h : first? s parent selections key = some o) :
    o ∈ occurrences s parent selections ∧ o.key = key :=
  ⟨List.mem_of_find?_eq_some h, by simpa using List.find?_some h⟩

theorem exists_first? (h : o ∈ occurrences s parent selections) :
    ∃ o', first? s parent selections o.key = some o' :=
  Option.isSome_iff_exists.mp <| List.find?_isSome.mpr ⟨o, h, by simp⟩

theorem FirstSelects.selects (h : FirstSelects s parent selections path) :
    Selects selections path := by
  induction path generalizing parent selections
  case nil => cases h
  case cons key path hi =>
    have ⟨o, hf, hp⟩ := h
    have ⟨hm, hk⟩ := mem_of_first? hf
    refine (selects_cons_iff s parent).mpr ⟨o, hm, hk, hp.imp_right ?_⟩
    exact fun ⟨_, _, hp⟩ => hi hp

theorem FirstsCover.firstSelects (h : FirstsCover s parent selections)
    (hs : Selects selections path) : FirstSelects s parent selections path := by
  induction path generalizing parent selections
  case nil => exact absurd rfl hs.ne_nil
  case cons key path hi =>
    have ⟨later, defined, inside⟩ := h
    have ⟨o', hm, hk, hp⟩ := (selects_cons_iff s parent).mp hs
    have ⟨o, hf⟩ := exists_first? hm
    rw [hk] at hf
    refine ⟨o, hf, hp.imp_right fun hp => ?_⟩
    have hp := later key o hf o' hm hk path hp
    have ⟨f, hd⟩ := Option.isSome_iff_exists.mp <| defined key o hf path hp
    exact ⟨f, hd, hi (inside key o f hf hd) hp⟩

theorem firstsCover_of_firstSelects (parent : Option Schema.NamedType)
    (selections : List Selection)
    (h : ∀ path, Selects selections path → FirstSelects s parent selections path) :
    FirstsCover s parent selections := by
  -- What a field with the key selects, the first one selects, and its type defines the field.
  have step (key : String) (o : Occurrence) (hf : first? s parent selections key = some o) :
      ∀ o' ∈ occurrences s parent selections, o'.key = key → ∀ path, Selects o'.selections path →
        ∃ f, o.field? = some f ∧ FirstSelects s (s.type? f.type.baseName) o.selections path := by
    intro o' hm hk path hs
    have ⟨_, hf', hp⟩ := h (key :: path) <| (selects_cons_iff s parent).mpr ⟨o', hm, hk, .inr hs⟩
    cases hf.symm.trans hf'
    exact hp.resolve_left hs.ne_nil
  constructor
  case later =>
    intro key o hf o' hm hk path hs
    have ⟨_, _, hp⟩ := step key o hf o' hm hk path hs
    exact hp.selects
  case defined =>
    intro key o hf path hs
    have ⟨hm, hk⟩ := mem_of_first? hf
    have ⟨f, hd, _⟩ := step key o hf o hm hk path hs
    simp [hd]
  case inside =>
    intro key o f hf hd
    have ⟨hm, hk⟩ := mem_of_first? hf
    have := sizeOf_selections_lt_of_mem_occurrences selections parent o hm
    refine firstsCover_of_firstSelects _ _ fun path hs => ?_
    have ⟨_, hd', hp⟩ := step key o hf o hm hk path hs
    cases hd.symm.trans hd'
    exact hp
termination_by sizeOf selections

theorem firstsCover_iff : FirstsCover s parent selections ↔
    ∀ path, Selects selections path → FirstSelects s parent selections path :=
  ⟨fun h _ => h.firstSelects, firstsCover_of_firstSelects _ _⟩

instance decidableFirstSelects : (path : List String) → ∀ parent selections,
    Decidable (FirstSelects s parent selections path)
  | [], _, _ => .isFalse not_false
  | key :: path, parent, selections =>
    have (f : Schema.Field) (o : Occurrence) :=
      decidableFirstSelects path (s.type? f.type.baseName) o.selections
    inferInstanceAs <| Decidable <| ∃ o ∈ first? s parent selections key, path = [] ∨
      ∃ f ∈ o.field?, FirstSelects s (s.type? f.type.baseName) o.selections path

instance : Decidable (FirstsCover s parent selections) :=
  decidable_of_iff (∀ path ∈ Graphql.paths selections, FirstSelects s parent selections path) <| by
    simp only [firstsCover_iff, Graphql.mem_paths_iff]

-- The name under which the type of a definition's response is declared, and that type.
def response? (s : Schema) (options : TypeOptions) : Definition → Option (String × Shape)
  | .operation o => o.name.map fun name => (s!"{name}Response", responseShape s options o)
  | .fragment f  => some (f.name, fragmentShape s options f)
  | _            => none

-- The type that a definition makes its selections on.
def selectedType? (s : Schema) : Definition → Option Schema.NamedType
  | .operation o => s.rootType? o.kind
  | .fragment f  => s.type? f.typeCondition
  | _            => none

theorem mem_response_iff {typeName : String} {shape : Shape} {isOptional : Bool} {type : Shape}
    (h : response? s options definition = some (typeName, shape)) :
    (.response key isOptional, type) ∈ shape.members ↔ (.response key isOptional, type) ∈
      membersOf s options (selectedType? s definition) definition.selections := by
  cases definition
  case operation o =>
    have ⟨_, _, h⟩ := Option.map_eq_some_iff.mp h
    cases h
    rfl
  case fragment f =>
    cases h
    simp [fragmentShape, Shape.members]
    rfl
  all_goals cases h

theorem hasMember_response_iff {typeName : String} {shape : Shape}
    (h : response? s options definition = some (typeName, shape)) :
    shape.HasMember path ↔ FirstSelects s (selectedType? s definition) definition.selections path :=
  hasMember_iff fun _ _ _ => mem_response_iff h

-- The text of a definition's types declares the type of its response.
theorem exists_declaration {text : String} (h : types s options definition = .ok text) :
    ∃ typeName shape before after, response? s options definition = some (typeName, shape) ∧
      text = before ++ declaration typeName shape ++ after := by
  cases definition
  case operation o =>
    cases hn : o.name
    case none => simp [types, hn] at h
    case some name =>
      simp only [types, hn, operationTypes] at h
      obtain ⟨_, _, h⟩ := bind_ok.mp h
      cases h
      have split (before response a b c : String) :
          before ++ response ++ a ++ b ++ c = before ++ response ++ (a ++ b ++ c) := by
        simp only [String.append_assoc]
      exact ⟨_, _, _, _, by simp only [response?, hn, Option.map_some], split ..⟩
  case fragment f =>
    have he := Except.ok.inj h
    exact ⟨_, _, _, "", rfl, he.symm.trans String.append_empty.symm⟩
  all_goals cases h

-- The type of a valid definition has members for all paths that it selects exactly if first fields
-- cover the later ones: of several fields with one key, only the first has a member.
theorem members_complete_iff (h : Validation.faults s d = []) (hm : definition ∈ d)
    (hn : definition.name? = some name) (options : TypeOptions) :
    ∃ text typeName shape before after, types s options definition = .ok text ∧
      response? s options definition = some (typeName, shape) ∧
      text = before ++ declaration typeName shape ++ after ∧
      ((∀ path, Selects definition.selections path → shape.HasMember path) ↔
        FirstsCover s (selectedType? s definition) definition.selections) := by
  have ⟨text, ht⟩ := @exists_types _ _ _ _ options h hm hn
  have ⟨typeName, shape, before, after, hr, he⟩ := exists_declaration ht
  refine ⟨text, typeName, shape, before, after, ht, hr, he, ?_⟩
  simp only [firstsCover_iff, hasMember_response_iff hr]

def profileSchema : Schema :=
  { Schema.empty with
    types := [⟨"Query", none, .object [] [⟨"viewer", [], .named "User"⟩]⟩,
      ⟨"User", none, .object [] [⟨"id", [], .nonNull (.named "ID")⟩, ⟨"name", [], .named "String"⟩]⟩,
      ⟨"ID", none, .scalar⟩, ⟨"String", none, .scalar⟩]
  }.withRoot .query "Query"

def profileField (name : String) (selections : List Selection) : Selection :=
  .field none name [] [] selections

def profileQuery (selections : List Selection) : Definition :=
  .operation ⟨.query, some "App", [], [], selections⟩

-- Both fields select the identifier of the viewer, and the first one the name as well.
def coveredQuery : Definition :=
  profileQuery [profileField "viewer" [profileField "id" [], profileField "name" []],
    profileField "viewer" [profileField "id" []]]

-- Each field selects what the other does not.
def uncoveredQuery : Definition :=
  profileQuery [profileField "viewer" [profileField "id" []],
    profileField "viewer" [profileField "name" []]]

theorem coveredQuery_complete : ∃ text typeName shape before after,
    types profileSchema ⟨[], false⟩ coveredQuery = .ok text ∧
      response? profileSchema ⟨[], false⟩ coveredQuery = some (typeName, shape) ∧
      text = before ++ declaration typeName shape ++ after ∧
      ∀ path, Selects coveredQuery.selections path → shape.HasMember path := by
  have ⟨text, typeName, shape, before, after, ht, hr, he, hc⟩ :=
    @members_complete_iff profileSchema [coveredQuery] coveredQuery "App" (by decide +kernel)
      (by simp) rfl ⟨[], false⟩
  refine ⟨text, typeName, shape, before, after, ht, hr, he, hc.mpr <| by decide +kernel⟩

-- The name of the viewer has no member.
theorem uncoveredQuery_incomplete : Validation.faults profileSchema [uncoveredQuery] = [] ∧
    ∃ text typeName shape, types profileSchema ⟨[], false⟩ uncoveredQuery = .ok text ∧
      response? profileSchema ⟨[], false⟩ uncoveredQuery = some (typeName, shape) ∧
      Selects uncoveredQuery.selections ["viewer", "name"] ∧
      ¬ shape.HasMember ["viewer", "name"] := by
  refine ⟨by decide +kernel, _, _, _, rfl, rfl, ?_, ?_⟩
  · exact .inside (.tail _ (.head _)) (.here (.head _))
  · rw [@hasMember_response_iff profileSchema ⟨[], false⟩ _ uncoveredQuery _ _ rfl]
    decide +kernel

end Flow

end GraphqlArtifacts
