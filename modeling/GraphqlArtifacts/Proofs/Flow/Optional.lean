import GraphqlArtifacts.Proofs.Flow.Completeness

-- Which members of the generated object types are optional. The first selection of a key decides.

namespace GraphqlArtifacts.Flow

open Graphql (Selection)

-- A field is chosen among selections on a type, or in fragments among them. In a fragment on another
-- type than the one around it, that is under a condition.
inductive Chosen (s : Schema) :
    Option Schema.NamedType → List Selection → Occurrence → Bool → Prop
  | here (h : .field renamed name arguments directives nested ∈ selections) :
      Chosen s parent selections ⟨renamed.getD name, definedField? parent name, nested⟩ false
  | within (h : .inlineFragment condition directives nested ∈ selections)
      (ho : Chosen s (conditionType s parent condition) nested o isConditional) :
      Chosen s parent selections o
        (isConditional || !sameType (conditionType s parent condition) parent)

mutual

-- The chosen fields in order, each with whether that is under a condition.
def choicesOf (s : Schema) (parent : Option Schema.NamedType) : Selection → List (Occurrence × Bool)
  | .field renamed name _ _ inner => [(⟨renamed.getD name, definedField? parent name, inner⟩, false)]
  | .inlineFragment condition _ inner =>
    let type := conditionType s parent condition
    (choices s type inner).map <| .map id (· || !sameType type parent)
  | .spread .. => []

def choices (s : Schema) (parent : Option Schema.NamedType) :
    List Selection → List (Occurrence × Bool)
  | [] => []
  | selection :: rest => choicesOf s parent selection ++ choices s parent rest

end

-- The first of the chosen fields with a key.
def choice? (s : Schema) (parent : Option Schema.NamedType) (selections : List Selection)
    (key : String) : Option (Occurrence × Bool) :=
  (choices s parent selections).find? (·.1.key == key)

-- The selections below first fields that a path of their keys leads to, and the type they are on.
def place? (s : Schema) (parent : Option Schema.NamedType) (selections : List Selection) :
    List String → Option (Option Schema.NamedType × List Selection)
  | []          => some (parent, selections)
  | key :: path => do
    let o ← first? s parent selections key
    let f ← o.field?
    place? s (s.type? f.type.baseName) o.selections path

namespace Shape

-- A path leads through the object types in a type to a member for its last key, which is optional
-- or not.
inductive HasMarked (isOptional : Bool) : Shape → List String → Prop
  | here (h : (.response key isOptional, type) ∈ members shape) : HasMarked isOptional shape [key]
  | inside (h : (.response key mark, type) ∈ members shape) (hm : HasMarked isOptional type path) :
      HasMarked isOptional shape (key :: path)

end Shape

variable {s : Schema} {options : TypeOptions} {parent : Option Schema.NamedType}
  {selections : List Selection} {shape shape' : Shape} {key : String} {path : List String}
  {m : Members} {r : Response} {isOptional isConditional : Bool} {o : Occurrence}

namespace Shape

theorem hasMarked_singleton_iff :
    shape.HasMarked isOptional [key] ↔ ∃ type, (.response key isOptional, type) ∈ shape.members := by
  constructor
  case mp =>
    intro h
    cases h
    case here type h => exact ⟨type, h⟩
    case inside h    => cases h
  case mpr => exact fun ⟨_, h⟩ => .here h

theorem hasMarked_cons_iff (hp : path ≠ []) : shape.HasMarked isOptional (key :: path) ↔
    ∃ mark type, (.response key mark, type) ∈ shape.members ∧ type.HasMarked isOptional path := by
  constructor
  case mp =>
    intro h
    cases h
    case here                  => exact absurd rfl hp
    case inside type mark h hm => exact ⟨mark, type, h, hm⟩
  case mpr => exact fun ⟨_, _, h, hm⟩ => .inside h hm

theorem not_hasMarked_empty : ¬ (Shape.object []).HasMarked isOptional path := by
  intro h
  cases h <;> contradiction

-- Only the members for responses count.
theorem hasMarked_congr (h : ∀ key mark type, (.response key mark, type) ∈ shape.members ↔
    (.response key mark, type) ∈ shape'.members) :
    shape.HasMarked isOptional path ↔ shape'.HasMarked isOptional path := by
  constructor
  all_goals
    intro hm
    cases hm
  · exact .here <| (h ..).mp ‹_›
  · exact .inside ((h ..).mp ‹_›) ‹_›
  · exact .here <| (h ..).mpr ‹_›
  · exact .inside ((h ..).mpr ‹_›) ‹_›

end Shape

theorem Chosen.mono {more : List Selection} (h : Chosen s parent selections o isConditional)
    (hs : selections ⊆ more) : Chosen s parent more o isConditional := by
  cases h
  case here h      => exact .here (hs h)
  case within h ho => exact .within (hs h) ho

theorem mem_choices_of_mem {selection : Selection} {choice : Occurrence × Bool}
    (h : selection ∈ selections) (hc : choice ∈ choicesOf s parent selection) :
    choice ∈ choices s parent selections := by
  induction selections
  case nil => cases h
  case cons head rest hi =>
    cases h
    case head   => exact List.mem_append_left _ hc
    case tail h => exact List.mem_append_right _ <| hi h

theorem Chosen.mem_choices (h : Chosen s parent selections o isConditional) :
    (o, isConditional) ∈ choices s parent selections := by
  induction h
  case here h        => exact mem_choices_of_mem h <| .head _
  case within h _ hi => exact mem_choices_of_mem h <| List.mem_map.mpr ⟨_, hi, rfl⟩

mutual

theorem chosen_of_mem_choicesOf : (selection : Selection) → ∀ parent o isConditional,
    (o, isConditional) ∈ choicesOf s parent selection → Chosen s parent [selection] o isConditional
  | .field .., parent, o, isConditional, h => by
    cases List.mem_singleton.mp h
    exact .here (.head _)
  | .inlineFragment .., parent, o, isConditional, h => by
    have ⟨⟨o', isConditional'⟩, hm, he⟩ := List.mem_map.mp h
    cases he
    exact .within (.head _) <| chosen_of_mem_choices _ _ o' isConditional' hm
  | .spread .., _, _, _, h => by cases h

theorem chosen_of_mem_choices : (selections : List Selection) → ∀ parent o isConditional,
    (o, isConditional) ∈ choices s parent selections → Chosen s parent selections o isConditional
  | [], _, _, _, h => by cases h
  | selection :: rest, parent, o, isConditional, h => by
    cases List.mem_append.mp h
    case inl h => exact (chosen_of_mem_choicesOf selection parent o _ h).mono <| by simp
    case inr h =>
      exact (chosen_of_mem_choices rest parent o _ h).mono <| List.subset_cons_self selection rest

end

theorem chosen_iff :
    Chosen s parent selections o isConditional ↔ (o, isConditional) ∈ choices s parent selections :=
  ⟨Chosen.mem_choices, chosen_of_mem_choices _ _ _ _⟩

mutual

theorem map_fst_choicesOf : (selection : Selection) → ∀ parent,
    (choicesOf s parent selection).map Prod.fst = occurrencesOf s parent selection
  | .field .., _ => rfl
  | .inlineFragment condition _ inner, parent => by
    rw [occurrencesOf, ← map_fst_choices inner, choicesOf, List.map_map]
    rfl
  | .spread .., _ => rfl

-- The chosen fields are those that stand among the selections.
theorem map_fst_choices : (selections : List Selection) → ∀ parent,
    (choices s parent selections).map Prod.fst = occurrences s parent selections
  | [], _ => rfl
  | selection :: rest, parent => by
    simp only [choices, occurrences, List.map_append, map_fst_choicesOf selection,
      map_fst_choices rest]

end

theorem find?_choicesOf_inlineFragment {condition : Option String}
    {directives : List Graphql.Directive} :
    (choicesOf s parent (.inlineFragment condition directives selections)).find? (·.1.key == key) =
      (choice? s (conditionType s parent condition) selections key).map
        (.map id (· || !sameType (conditionType s parent condition) parent)) := by
  rw [choicesOf, List.find?_map]
  rfl

theorem mem_occurrences_iff_exists_choice : o ∈ occurrences s parent selections ↔
    ∃ isConditional, (o, isConditional) ∈ choices s parent selections := by
  simp [← map_fst_choices]

theorem first?_eq :
    first? s parent selections key = (choice? s parent selections key).map Prod.fst := by
  rw [first?, ← map_fst_choices, List.find?_map]
  rfl

theorem chosen_of_choice? (h : choice? s parent selections key = some (o, isConditional)) :
    Chosen s parent selections o isConditional ∧ o.key = key :=
  ⟨chosen_iff.mpr <| List.mem_of_find?_eq_some h, by simpa using List.find?_some h⟩

theorem Chosen.exists_choice? (h : Chosen s parent selections o isConditional) :
    ∃ choice, choice? s parent selections o.key = some choice :=
  Option.isSome_iff_exists.mp <| List.find?_isSome.mpr ⟨_, h.mem_choices, by simp⟩

namespace Members

-- Whether the member for a key is optional.
def mark? (m : Members) (key : String) : Option Bool :=
  (m.responses.find? (·.key == key)).map (·.isOptional)

theorem mark?_withResponse : (m.withResponse r).mark? key =
    (m.mark? key).or (if r.key = key then some r.isOptional else none) := by
  simp only [mark?, find?_withResponse, Option.map_or]
  split <;> rfl

theorem IsKeyed.exists_marked_iff (h : m.IsKeyed) :
    (∃ type, (.response key isOptional, type) ∈ m.named) ↔ m.mark? key = some isOptional := by
  simp only [response_mem_named_iff, mark?, Option.map_eq_some_iff, h.find?_eq_some_iff]
  constructor
  · exact fun ⟨type, hm⟩ => ⟨_, ⟨hm, rfl⟩, rfl⟩
  · exact fun ⟨r, ⟨hm, hk⟩, hr⟩ => ⟨r.shape, hk ▸ hr ▸ hm⟩

end Members

mutual

theorem mark?_addSelection : (selection : Selection) → ∀ parent isOptional m key,
    (addSelection s options parent isOptional m selection).mark? key = (m.mark? key).or
      (((choicesOf s parent selection).find? (·.1.key == key)).map (isOptional || ·.2))
  | .field renamed name _ _ inner, parent, isOptional, m, key => by
    simp only [addSelection, Members.mark?_withResponse, choicesOf, List.find?_singleton, beq_iff_eq]
    congr 1
    split <;> simp
  | .inlineFragment condition _ inner, parent, isOptional, m, key => by
    simp only [addSelection, find?_choicesOf_inlineFragment, mark?_addSelections inner,
      Option.map_map]
    congr 2
    funext (o, isConditional)
    simp [Bool.or_comm, Bool.or_left_comm]
  | .spread .., parent, isOptional, m, key => by
    simp [addSelection, choicesOf, Members.withSpread, Members.mark?]

-- Of the fields with one key the first decides whether their member is optional.
theorem mark?_addSelections : (selections : List Selection) → ∀ parent isOptional m key,
    (addSelections s options parent isOptional m selections).mark? key = (m.mark? key).or
      ((choice? s parent selections key).map (isOptional || ·.2))
  | [], parent, isOptional, m, key => by
    simp [addSelections, choice?, choices]
  | selection :: rest, parent, isOptional, m, key => by
    simp only [addSelections, choice?, choices, List.find?_append]
    rw [mark?_addSelections rest, mark?_addSelection selection, Option.or_assoc, Option.map_or]
    rfl

end

theorem exists_marked_iff :
    (∃ type, (.response key isOptional, type) ∈ membersOf s options parent selections) ↔
      ∃ first, choice? s parent selections key = some (first, isOptional) := by
  have hk := @isKeyed_addSelections s options selections parent false _ .empty
  rw [membersOf, hk.exists_marked_iff, mark?_addSelections]
  simp [Members.empty, Members.mark?]

-- A member is as the first selection of its key is, among those that its object type comes from.
theorem hasMarked_iff (h : ∀ key isOptional type, (.response key isOptional, type) ∈ shape.members ↔
    (.response key isOptional, type) ∈ membersOf s options parent selections) :
    shape.HasMarked isOptional (path ++ [key]) ↔ ∃ below nested first,
      place? s parent selections path = some (below, nested) ∧
        choice? s below nested key = some (first, isOptional) := by
  induction path generalizing shape parent selections
  case nil => simp [Shape.hasMarked_singleton_iff, h, exists_marked_iff, place?]
  case cons start path hi =>
    let P (members : List (MemberName × Shape)) : Prop :=
      (Shape.object members).HasMarked isOptional (path ++ [key])
    have hp : shape.HasMarked isOptional (start :: (path ++ [key])) ↔ ∃ mark type,
        (.response start mark, type) ∈ membersOf s options parent selections ∧ P type.members :=
      (Shape.hasMarked_cons_iff <| by simp).trans <| exists₂_congr fun _ _ =>
        and_congr (h _ _ _) <| Shape.hasMarked_congr fun _ _ _ => Iff.rfl
    have hb (o : Occurrence) : P (o.members s options) ↔ ∃ f, o.field? = some f ∧
        ∃ below nested first,
          place? s (s.type? f.type.baseName) o.selections path = some (below, nested) ∧
            choice? s below nested key = some (first, isOptional) := by
      unfold P Occurrence.members
      split
      case h_1 ho   => simp [ho, Shape.not_hasMarked_empty]
      case h_2 f ho => simpa [ho] using hi fun _ _ _ => Iff.rfl
    rw [List.cons_append, hp, exists_member_iff]
    simp only [hb, place?, Option.bind_eq_bind, Option.bind_eq_some_iff]
    constructor
    · rintro ⟨o, ho, f, hf, below, nested, first, hp, hm⟩
      exact ⟨below, nested, first, ⟨o, ho, f, hf, hp⟩, hm⟩
    · rintro ⟨below, nested, first, ⟨o, ho, f, hf, hp⟩, hm⟩
      exact ⟨o, ho, f, hf, below, nested, first, hp, hm⟩

end GraphqlArtifacts.Flow
