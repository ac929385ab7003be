import GraphqlArtifacts.Proofs.Flow.Optional

-- Whether optional members are those whose keys are selected under conditions only, and whether they
-- depend on the order of selections.

namespace GraphqlArtifacts

open Graphql (Document Definition Selection)

namespace Graphql

-- The same selections with siblings in another order, at any depth.
inductive Reordered : List Selection → List Selection → Prop
  | perm (h : l.Perm l') : Reordered l l'
  | field (h : Reordered nested nested') :
      Reordered (.field renamed name arguments directives nested :: rest)
        (.field renamed name arguments directives nested' :: rest)
  | inlineFragment (h : Reordered nested nested') :
      Reordered (.inlineFragment condition directives nested :: rest)
        (.inlineFragment condition directives nested' :: rest)
  | trans (h₁ : Reordered l₁ l₂) (h₂ : Reordered l₂ l₃) : Reordered l₁ l₃

def Definition.withSelections (selections : List Selection) : Definition → Definition
  | .operation o => .operation { o with selections }
  | .fragment f  => .fragment { f with selections }
  | d            => d

theorem Reordered.refl {l : List Selection} : Reordered l l :=
  .perm <| .refl l

-- Any of the selections may come first.
theorem Reordered.exists_first {l : List Selection} {selection : Selection} (h : selection ∈ l) :
    ∃ rest, Reordered l (selection :: rest) := by
  obtain ⟨before, after, rfl⟩ := List.append_of_mem h
  exact ⟨before ++ after, .perm List.perm_middle⟩

end Graphql

open Graphql (Reordered)

namespace Flow

-- A path of keys leads to the selections below any of the fields that have them, and to the type
-- that these are on.
inductive Place (s : Schema) : Option Schema.NamedType → List Selection → List String →
    Option Schema.NamedType → List Selection → Prop
  | here : Place s parent selections [] parent selections
  | inside (h : o ∈ occurrences s parent selections) (hf : o.field? = some f)
      (hp : Place s (s.type? f.type.baseName) o.selections path below nested) :
      Place s parent selections (o.key :: path) below nested

variable {s : Schema} {options : TypeOptions} {parent below : Option Schema.NamedType}
  {selections selections' nested nested' : List Selection} {o : Occurrence}
  {isConditional isOptional : Bool} {path : List String} {definition : Definition}
  {key typeName name : String} {shape : Shape} {d : Document}

-- In another order the same fields are chosen, under the same conditions.
theorem exists_choice_of_reordered (h : Reordered selections selections') :
    ∀ {parent o isConditional}, (o, isConditional) ∈ choices s parent selections' →
      ∃ nested, ({ o with selections := nested }, isConditional) ∈ choices s parent selections ∧
        Reordered nested o.selections := by
  induction h
  case perm h =>
    intro parent o isConditional hm
    exact ⟨_, chosen_iff.mp <| (chosen_iff.mpr hm).mono h.symm.subset, .refl⟩
  case field h _ =>
    intro parent o isConditional hm
    cases List.mem_append.mp hm
    case inl hm =>
      cases List.mem_singleton.mp hm
      exact ⟨_, List.mem_append_left _ <| List.mem_singleton_self _, h⟩
    case inr hm => exact ⟨_, List.mem_append_right _ hm, .refl⟩
  case inlineFragment hi =>
    intro parent o isConditional hm
    cases List.mem_append.mp hm
    case inl hm =>
      have ⟨⟨_, _⟩, hc, he⟩ := List.mem_map.mp hm
      cases he
      have ⟨nested, hc, hr⟩ := hi hc
      exact ⟨nested, List.mem_append_left _ <| List.mem_map.mpr ⟨_, hc, rfl⟩, hr⟩
    case inr hm => exact ⟨_, List.mem_append_right _ hm, .refl⟩
  case trans hi₁ hi₂ =>
    intro parent o isConditional hm
    have ⟨_, hm, hr₂⟩ := hi₂ hm
    have ⟨nested, hm, hr₁⟩ := hi₁ hm
    exact ⟨nested, hm, hr₁.trans hr₂⟩

theorem exists_place_of_reordered (hp : Place s parent selections' path below nested) :
    ∀ {selections}, Reordered selections selections' →
      ∃ nested', Place s parent selections path below nested' ∧ Reordered nested' nested := by
  induction hp
  case here =>
    intro _ hr
    exact ⟨_, .here, hr⟩
  case inside h hf _ hi =>
    intro _ hr
    have ⟨_, hm⟩ := mem_occurrences_iff_exists_choice.mp h
    have ⟨_, hm, hr⟩ := exists_choice_of_reordered hr hm
    have ⟨nested', hp, hr⟩ := hi hr
    have hm := mem_occurrences_iff_exists_choice.mpr ⟨_, hm⟩
    exact ⟨nested', (Place.inside hm hf hp :), hr⟩

-- In some order a chosen field is the first with its key, with its own selections in any order.
theorem exists_reordered_choice (h : Chosen s parent selections o isConditional)
    (hr : Reordered o.selections nested) :
    ∃ selections', Reordered selections selections' ∧
      choice? s parent selections' o.key = some ({ o with selections := nested }, isConditional) := by
  induction h
  case here h =>
    have ⟨rest, hf⟩ := Reordered.exists_first h
    exact ⟨_, hf.trans <| .field hr, by simp [choice?, choices, choicesOf]⟩
  case within h _ hi =>
    have ⟨rest, hf⟩ := Reordered.exists_first h
    have ⟨nested, hr, hc⟩ := hi hr
    refine ⟨_, hf.trans <| .inlineFragment hr, ?_⟩
    rw [choice?, choices, List.find?_append, find?_choicesOf_inlineFragment, hc]
    rfl

-- In some order first fields lead to any place.
theorem exists_reordered_place (hp : Place s parent selections path below nested)
    (hr : Reordered nested nested') :
    ∃ selections', Reordered selections selections' ∧
      place? s parent selections' path = some (below, nested') := by
  induction hp
  case here => exact ⟨_, hr, rfl⟩
  case inside h hf _ hi =>
    have ⟨_, hr, hp⟩ := hi hr
    have ⟨_, hm⟩ := mem_occurrences_iff_exists_choice.mp h
    have ⟨selections', hr, hc⟩ := exists_reordered_choice (chosen_iff.mpr hm) hr
    exact ⟨selections', hr, by simp [place?, first?_eq, hc, hf, hp]⟩

theorem place_of_place? (h : place? s parent selections path = some (below, nested)) :
    Place s parent selections path below nested := by
  induction path generalizing parent selections
  case nil =>
    cases h
    exact .here
  case cons key path hi =>
    simp only [place?, Option.bind_eq_bind, Option.bind_eq_some_iff] at h
    obtain ⟨o, ho, f, hf, hp⟩ := h
    obtain ⟨hm, hk⟩ := mem_of_first? ho
    exact hk ▸ .inside hm hf (hi hp)

-- A member is optional exactly if each selection of its key, among those that its object type comes
-- from, is under a condition.
def MarksConditions (s : Schema) (parent : Option Schema.NamedType) (selections : List Selection)
    (shape : Shape) : Prop :=
  ∀ path key isOptional, shape.HasMarked isOptional (path ++ [key]) →
    ∃ below nested, place? s parent selections path = some (below, nested) ∧
      (isOptional ↔ ∀ o isConditional, Chosen s below nested o isConditional → o.key = key →
        isConditional)

-- At each place of an object type, a key that is chosen without a condition is chosen so first.
def PlainFirst (s : Schema) (parent : Option Schema.NamedType) (selections : List Selection) :
    Prop :=
  ∀ path below nested, place? s parent selections path = some (below, nested) →
    ∀ o, Chosen s below nested o false → ∃ first, choice? s below nested o.key = some (first, false)

-- A member that the type has for another order of the selections as well is optional in both of them
-- or in none.
def IsStable (s : Schema) (options : TypeOptions) (definition : Definition) (shape : Shape) : Prop :=
  ∀ selections, Reordered definition.selections selections → ∀ typeName shape',
    response? s options (definition.withSelections selections) = some (typeName, shape') →
    ∀ path key isOptional isOptional', shape.HasMarked isOptional (path ++ [key]) →
      shape'.HasMarked isOptional' (path ++ [key]) → isOptional' = isOptional

-- Wherever the keys that lead to a member are selected, its own key is selected as the member says.
def Agree (s : Schema) (parent : Option Schema.NamedType) (selections : List Selection)
    (shape : Shape) : Prop :=
  ∀ path key isOptional, shape.HasMarked isOptional (path ++ [key]) →
    ∀ below nested, Place s parent selections path below nested →
      ∀ o isConditional, Chosen s below nested o isConditional → o.key = key →
        isConditional = isOptional

theorem hasMarked_response_iff
    (h : response? s options definition = some (typeName, shape)) :
    shape.HasMarked isOptional (path ++ [key]) ↔ ∃ below nested first,
      place? s (selectedType? s definition) definition.selections path = some (below, nested) ∧
        choice? s below nested key = some (first, isOptional) :=
  hasMarked_iff fun _ _ _ => mem_response_iff h

theorem exists_response_withSelections (selections : List Selection)
    (h : response? s options definition = some (typeName, shape)) :
    ∃ shape',
      response? s options (definition.withSelections selections) = some (typeName, shape') := by
  cases definition
  case operation o =>
    have ⟨name, hn, he⟩ := Option.map_eq_some_iff.mp h
    cases he
    exact ⟨_, Option.map_eq_some_iff.mpr ⟨name, hn, rfl⟩⟩
  case fragment f =>
    cases h
    exact ⟨_, rfl⟩
  all_goals cases h

theorem hasMarked_withSelections_iff
    (h : response? s options (definition.withSelections selections) = some (typeName, shape)) :
    shape.HasMarked isOptional (path ++ [key]) ↔ ∃ below nested first,
      place? s (selectedType? s definition) selections path = some (below, nested) ∧
        choice? s below nested key = some (first, isOptional) := by
  cases definition
  case operation | fragment => exact hasMarked_response_iff h
  all_goals cases h

theorem marksConditions_iff (h : response? s options definition = some (typeName, shape)) :
    MarksConditions s (selectedType? s definition) definition.selections shape ↔
      PlainFirst s (selectedType? s definition) definition.selections := by
  constructor
  case mp =>
    intro hl path below nested hp o ho
    have ⟨⟨first, mark⟩, hf⟩ := ho.exists_choice?
    have hm := (hasMarked_response_iff h).mpr ⟨_, _, _, hp, hf⟩
    have ⟨below', nested', hp', hi⟩ := hl path o.key mark hm
    cases hp.symm.trans hp'
    cases mark
    case false => exact ⟨first, hf⟩
    case true  => cases hi.mp rfl o false ho rfl
  case mpr =>
    intro hp path key isOptional hm
    have ⟨below, nested, first, hb, hf⟩ := (hasMarked_response_iff h).mp hm
    have ⟨ho, hk⟩ := chosen_of_choice? hf
    refine ⟨below, nested, hb, ?_, fun ha => ha _ _ ho hk⟩
    intro hi o isConditional ho hk
    cases isConditional
    case true  => rfl
    case false =>
      have ⟨_, hf'⟩ := hp path below nested hb o ho
      cases hf.symm.trans <| hk ▸ hf'
      exact hi

theorem isStable_iff (h : response? s options definition = some (typeName, shape)) :
    IsStable s options definition shape ↔
      Agree s (selectedType? s definition) definition.selections shape := by
  constructor
  case mp =>
    intro hs path key isOptional hm below nested hp o isConditional ho hk
    have ⟨_, hr, hf⟩ := exists_reordered_choice ho .refl
    have ⟨selections, hr, hp⟩ := exists_reordered_place hp hr
    have ⟨shape', h'⟩ := exists_response_withSelections selections h
    have hm' := (hasMarked_withSelections_iff h').mpr ⟨_, _, _, hp, hf⟩
    exact hs selections hr typeName shape' h' path key _ _ hm (hk ▸ hm')
  case mpr =>
    intro ha selections hr typeName shape' h' path key isOptional isOptional' hm hm'
    have ⟨below, nested, first, hp, hf⟩ := (hasMarked_withSelections_iff h').mp hm'
    have ⟨ho, hk⟩ := chosen_of_choice? hf
    have ⟨_, hp, hr⟩ := exists_place_of_reordered (place_of_place? hp) hr
    have ⟨_, ho, _⟩ := exists_choice_of_reordered hr ho.mem_choices
    exact ha path key isOptional hm below _ hp _ _ (chosen_iff.mpr ho) hk

-- The first selection of a key decides whether its member is optional. So the marks in the type of a
-- valid definition tell what is under conditions exactly if selections without one come first, and
-- they are the same in any order of siblings exactly if all selections of a key agree.
theorem optional_iff_conditional (h : Validation.faults s d = []) (hm : definition ∈ d)
    (hn : definition.name? = some name) (options : TypeOptions) :
    ∃ text typeName shape before after, types s options definition = .ok text ∧
      response? s options definition = some (typeName, shape) ∧
      text = before ++ declaration typeName shape ++ after ∧
      (MarksConditions s (selectedType? s definition) definition.selections shape ↔
        PlainFirst s (selectedType? s definition) definition.selections) ∧
      (IsStable s options definition shape ↔
        Agree s (selectedType? s definition) definition.selections shape) := by
  have ⟨text, ht⟩ := @exists_types _ _ _ _ options h hm hn
  have ⟨typeName, shape, before, after, hr, he⟩ := exists_declaration ht
  exact ⟨text, typeName, shape, before, after, ht, hr, he, marksConditions_iff hr, isStable_iff hr⟩

theorem Place.mem_paths (h : Place s parent selections path below nested) :
    path ∈ [] :: Graphql.paths selections := by
  rw [List.mem_cons, Graphql.mem_paths_iff]
  induction h
  case here => exact .inl rfl
  case inside h _ _ hi =>
    exact .inr <| (selects_cons_iff s _).mpr ⟨_, h, rfl, hi⟩

instance : Decidable (PlainFirst s parent selections) :=
  decidable_of_iff (∀ path ∈ [] :: Graphql.paths selections,
      ∀ place ∈ place? s parent selections path, ∀ choice ∈ choices s place.1 place.2,
        choice.2 = false → (choice? s place.1 place.2 choice.1.key).map Prod.snd = some false) <| by
    constructor
    case mp =>
      intro h path below nested hp o ho
      have hm := (place_of_place? hp).mem_paths
      have hc := h path hm (below, nested) hp (o, false) ho.mem_choices rfl
      have ⟨⟨first, _⟩, hf, he⟩ := Option.map_eq_some_iff.mp hc
      exact ⟨first, he ▸ hf⟩
    case mpr =>
      rintro h path _ ⟨below, nested⟩ hp ⟨o, _⟩ hm rfl
      have ⟨_, hf⟩ := h path below nested hp o (chosen_iff.mpr hm)
      exact Option.map_eq_some_iff.mpr ⟨_, hf, rfl⟩

def nodeSchema : Schema :=
  { Schema.empty with
    types := [⟨"Query", none, .object [] [⟨"node", [], .named "Node"⟩]⟩,
      ⟨"Node", none, .interface [] [⟨"id", [], .nonNull (.named "ID")⟩]⟩,
      ⟨"User", none, .object ["Node"]
        [⟨"id", [], .nonNull (.named "ID")⟩, ⟨"name", [], .named "String"⟩]⟩,
      ⟨"ID", none, .scalar⟩, ⟨"String", none, .scalar⟩]
  }.withRoot .query "Query"

def onUser (selections : List Selection) : Selection :=
  .inlineFragment (some "User") [] selections

-- The identifier is selected of any node, and then of a user, with the name.
def plainQuery : Definition :=
  profileQuery [profileField "node"
    [profileField "id" [], onUser [profileField "id" [], profileField "name" []]]]

-- The same, of a user first.
def narrowQuery : Definition :=
  profileQuery [profileField "node"
    [onUser [profileField "id" [], profileField "name" []], profileField "id" []]]

theorem plainQuery_marksConditions : ∃ text typeName shape before after,
    types nodeSchema ⟨[], false⟩ plainQuery = .ok text ∧
      response? nodeSchema ⟨[], false⟩ plainQuery = some (typeName, shape) ∧
      text = before ++ declaration typeName shape ++ after ∧
      MarksConditions nodeSchema (selectedType? nodeSchema plainQuery) plainQuery.selections
        shape := by
  have ⟨text, typeName, shape, before, after, ht, hr, he, hm, _⟩ :=
    @optional_iff_conditional nodeSchema plainQuery "App" [plainQuery] (by decide +kernel)
      (by simp) rfl ⟨[], false⟩
  exact ⟨text, typeName, shape, before, after, ht, hr, he, hm.mpr <| by decide +kernel⟩

-- The member for the identifier is optional although it is selected of any node, and in the other
-- order it is not.
theorem narrowQuery_not_marksConditions :
    Validation.faults nodeSchema [narrowQuery] = [] ∧
    narrowQuery = plainQuery.withSelections narrowQuery.selections ∧
    Reordered plainQuery.selections narrowQuery.selections ∧
    ∃ typeName shape shape',
      response? nodeSchema ⟨[], false⟩ plainQuery = some (typeName, shape) ∧
      response? nodeSchema ⟨[], false⟩ narrowQuery = some (typeName, shape') ∧
      shape.HasMarked false ["node", "id"] ∧ shape'.HasMarked true ["node", "id"] ∧
      ¬ MarksConditions nodeSchema (selectedType? nodeSchema narrowQuery) narrowQuery.selections
        shape' := by
  refine ⟨by decide +kernel, rfl, .field <| .perm <| .swap .., _, _, _, rfl, rfl, ?_, ?_, ?_⟩
  · refine (@hasMarked_response_iff _ ⟨[], false⟩ _ ["node"] plainQuery _ _ _ rfl).mpr ?_
    exact ⟨_, _, _, rfl, rfl⟩
  · refine (@hasMarked_response_iff _ ⟨[], false⟩ _ ["node"] narrowQuery _ _ _ rfl).mpr ?_
    exact ⟨_, _, _, rfl, rfl⟩
  · rw [@marksConditions_iff _ ⟨[], false⟩ narrowQuery _ _ rfl]
    decide +kernel

end Flow

end GraphqlArtifacts
