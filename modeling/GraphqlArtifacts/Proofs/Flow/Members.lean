import Mathlib.Data.List.Nodup
import GraphqlArtifacts.Proofs.Flow.Occurrences

namespace GraphqlArtifacts.Flow

open Graphql (Selection TypeRef Selects)

namespace Shape

-- The members of an object type, also of one inside arrays.
def members : Shape → List (MemberName × Shape)
  | .leaf _         => []
  | .nullable type  => type.members
  | .array item     => item.members
  | .object members => members

-- A path leads through the object types in a type to a member for its last key.
inductive HasMember : Shape → List String → Prop
  | here   (h : (.response key isOptional, type) ∈ members shape) : HasMember shape [key]
  | inside (h : (.response key isOptional, type) ∈ members shape) (hm : HasMember type path) :
      HasMember shape (key :: path)

end Shape

variable {s : Schema} {options : TypeOptions} {parent : Option Schema.NamedType}
  {selections : List Selection} {shape shape' : Shape} {key : String} {path : List String}
  {m : Members} {r : Response} {isOptional : Bool}

namespace Shape

theorem not_hasMember_nil : ¬ shape.HasMember [] :=
  nofun

theorem hasMember_cons_iff : shape.HasMember (key :: path) ↔
    ∃ isOptional type, (.response key isOptional, type) ∈ shape.members ∧
      (path = [] ∨ type.HasMember path) := by
  constructor
  case mp =>
    intro h
    cases h
    case here type isOptional h      => exact ⟨isOptional, type, h, .inl rfl⟩
    case inside type isOptional h hm => exact ⟨isOptional, type, h, .inr hm⟩
  case mpr =>
    intro ⟨isOptional, type, h, hp⟩
    cases hp
    case inl hp => exact hp ▸ .here h
    case inr hp => exact .inside h hp

-- Only the members for responses count.
theorem hasMember_congr (h : ∀ key isOptional type,
    (.response key isOptional, type) ∈ shape.members ↔
      (.response key isOptional, type) ∈ shape'.members) :
    shape.HasMember path ↔ shape'.HasMember path := by
  cases path
  case nil  => simp [not_hasMember_nil]
  case cons => simp only [hasMember_cons_iff, h]

end Shape

@[simp]
theorem members_bare {leaf : Shape} (type : TypeRef) :
    (wrapped.bare leaf type).members = leaf.members := by
  induction type
  case named          => rfl
  case nonNull _ hi   => exact hi
  case list item hi   =>
    cases item
    case nonNull => exact hi
    all_goals    exact hi

@[simp]
theorem members_wrapped {leaf : Shape} (type : TypeRef) :
    (wrapped leaf type).members = leaf.members := by
  cases type <;> exact members_bare _

theorem exists_leafShape (options : TypeOptions) (type : Option Schema.NamedType) :
    ∃ leaf, leafShape options type = .leaf leaf := by
  unfold leafShape
  split
  · exact ⟨_, rfl⟩
  · split <;> exact ⟨_, rfl⟩

theorem members_leafShape (type : Option Schema.NamedType) :
    (leafShape options type).members = [] := by
  have ⟨_, h⟩ := exists_leafShape options type
  rw [h, Shape.members]

namespace Members

-- The members of the type that the member for a key has.
def below? (m : Members) (key : String) : Option (List (MemberName × Shape)) :=
  (m.responses.find? (·.key == key)).map (·.shape.members)

-- Each key has one member.
def IsKeyed (m : Members) : Prop :=
  (m.responses.map Response.key).Nodup

theorem find?_withResponse : (m.withResponse r).responses.find? (·.key == key) =
    (m.responses.find? (·.key == key)).or (if r.key = key then some r else none) := by
  unfold withResponse
  split
  case isTrue h =>
    have ⟨r', hm, hk⟩ := List.any_eq_true.mp h
    by_cases he : r.key = key
    case neg => simp [he]
    case pos =>
      have hs : (m.responses.find? (·.key == key)).isSome :=
        List.find?_isSome.mpr ⟨r', hm, by simpa [he] using hk⟩
      have ⟨found, hf⟩ := Option.isSome_iff_exists.mp hs
      simp [hf]
  case isFalse h =>
    by_cases he : r.key = key <;> simp [List.find?_append, he]

theorem below?_withResponse : (m.withResponse r).below? key =
    (m.below? key).or (if r.key = key then some r.shape.members else none) := by
  simp only [below?, find?_withResponse, Option.map_or]
  split <;> rfl

theorem IsKeyed.withResponse (h : m.IsKeyed) : (m.withResponse r).IsKeyed := by
  unfold Members.withResponse
  split
  case isTrue  => exact h
  case isFalse hn =>
    simp only [IsKeyed, List.map_append, List.map_cons, List.map_nil]
    refine h.append (List.nodup_singleton _) ?_
    simp only [List.disjoint_singleton, List.mem_map, not_exists, not_and]
    intro r' hm he
    exact hn <| List.any_eq_true.mpr ⟨r', hm, by simpa using he⟩

theorem IsKeyed.empty : empty.IsKeyed :=
  List.nodup_nil

theorem response_mem_named_iff {type : Shape} :
    (.response key isOptional, type) ∈ m.named ↔ ⟨key, isOptional, type⟩ ∈ m.responses := by
  have hs : (.response key isOptional, type) ∉
      (if m.spreads.isEmpty then []
        else [(MemberName.mark "fragmentRefs",
          Shape.leaf (" & ".intercalate (m.spreads.map (· ++ "$ref"))))]) := by
    split <;> simp
  simp only [named, List.mem_append, hs, or_false, List.mem_map, Prod.mk.injEq,
    MemberName.response.injEq]
  constructor
  · intro ⟨r, hm, ⟨hk, ho⟩, ht⟩
    exact hk ▸ ho ▸ ht ▸ hm
  · exact fun hm => ⟨_, hm, ⟨rfl, rfl⟩, rfl⟩

theorem IsKeyed.find?_eq_some_iff (h : m.IsKeyed) :
    m.responses.find? (·.key == key) = some r ↔ r ∈ m.responses ∧ r.key = key := by
  constructor
  case mp =>
    intro hf
    exact ⟨List.mem_of_find?_eq_some hf, by simpa using List.find?_some hf⟩
  case mpr =>
    intro ⟨hm, hk⟩
    have hs : (m.responses.find? (·.key == key)).isSome :=
      List.find?_isSome.mpr ⟨r, hm, by simpa using hk⟩
    have ⟨r', hf⟩ := Option.isSome_iff_exists.mp hs
    have hk' : r'.key = key := by simpa using List.find?_some hf
    rw [hf, List.inj_on_of_nodup_map h (List.mem_of_find?_eq_some hf) hm (hk'.trans hk.symm)]

-- What stands below a key is told from the member that is found under it.
theorem IsKeyed.exists_member_iff (h : m.IsKeyed) {P : List (MemberName × Shape) → Prop} :
    (∃ isOptional type, (.response key isOptional, type) ∈ m.named ∧ P type.members) ↔
      ∃ members, m.below? key = some members ∧ P members := by
  simp only [response_mem_named_iff, below?, Option.map_eq_some_iff, h.find?_eq_some_iff]
  constructor
  · intro ⟨_, _, hm, hp⟩
    exact ⟨_, ⟨_, ⟨hm, rfl⟩, rfl⟩, hp⟩
  · intro ⟨_, ⟨r, ⟨hm, hk⟩, hr⟩, hp⟩
    exact ⟨r.isOptional, r.shape, hk ▸ hm, hr ▸ hp⟩

end Members

-- The members of the type of a field. A field without selections has none, nor has one that its
-- type does not define.
def Occurrence.members (s : Schema) (options : TypeOptions) (o : Occurrence) :
    List (MemberName × Shape) :=
  match o.field? with
  | none   => []
  | some f => membersOf s options (s.type? f.type.baseName) o.selections

-- The first of the fields with a key.
def first? (s : Schema) (parent : Option Schema.NamedType) (selections : List Selection)
    (key : String) : Option Occurrence :=
  (occurrences s parent selections).find? (·.key == key)

mutual

-- Of the fields with one key the first has a member.
theorem below?_addSelection : (selection : Selection) → ∀ parent isOptional m key,
    (addSelection s options parent isOptional m selection).below? key = (m.below? key).or
      (((occurrencesOf s parent selection).find? (·.key == key)).map (·.members s options))
  | .field renamed name _ _ inner, parent, isOptional, m, key => by
    simp only [addSelection, Members.below?_withResponse, occurrencesOf, List.find?_singleton,
      beq_iff_eq]
    congr 1
    split
    case isFalse => rfl
    case isTrue  =>
      simp only [Option.map_some, Occurrence.members, definedField?]
      split
      case isTrue  => rfl
      case isFalse =>
        cases parent.bind (·.field? name)
        case none   => rfl
        case some f =>
          cases inner
          case nil =>
            simp [members_leafShape, membersOf, addSelections, Members.named, Members.empty]
          case cons => simp [membersOf, Shape.members]
  | .inlineFragment condition _ inner, parent, isOptional, m, key => by
    simp only [addSelection, occurrencesOf]
    exact below?_addSelections inner _ _ m key
  | .spread .., parent, isOptional, m, key => by
    simp [addSelection, occurrencesOf, Members.withSpread, Members.below?]

theorem below?_addSelections : (selections : List Selection) → ∀ parent isOptional m key,
    (addSelections s options parent isOptional m selections).below? key = (m.below? key).or
      ((first? s parent selections key).map (·.members s options))
  | [], parent, isOptional, m, key => by
    simp [addSelections, first?, occurrences]
  | selection :: rest, parent, isOptional, m, key => by
    simp only [addSelections, first?, occurrences, List.find?_append]
    rw [below?_addSelections rest, below?_addSelection selection, Option.or_assoc, Option.map_or]
    rfl

end

mutual

theorem isKeyed_addSelection : (selection : Selection) → ∀ parent isOptional m, m.IsKeyed →
    (addSelection s options parent isOptional m selection).IsKeyed
  | .field .., _, _, _, h => by
    simp only [addSelection]
    exact h.withResponse
  | .inlineFragment _ _ inner, _, _, m, h => by
    simp only [addSelection]
    exact isKeyed_addSelections inner _ _ m h
  | .spread .., _, _, _, h => h

theorem isKeyed_addSelections : (selections : List Selection) → ∀ parent isOptional m, m.IsKeyed →
    (addSelections s options parent isOptional m selections).IsKeyed
  | [], _, _, _, h => h
  | selection :: rest, _, _, m, h => by
    simp only [addSelections]
    exact isKeyed_addSelections rest _ _ _ <| isKeyed_addSelection selection _ _ m h

end

-- The path is selected by the first of the fields with its first key, and so on below that field.
def FirstSelects (s : Schema) : Option Schema.NamedType → List Selection → List String → Prop
  | _, _, []                      => False
  | parent, selections, key :: path =>
    ∃ o, first? s parent selections key = some o ∧ (path = [] ∨
      ∃ f, o.field? = some f ∧ FirstSelects s (s.type? f.type.baseName) o.selections path)

-- What stands below the member for a key comes from the first of the fields with the key.
theorem exists_member_iff {P : List (MemberName × Shape) → Prop} :
    (∃ isOptional type, (.response key isOptional, type) ∈ membersOf s options parent selections ∧
      P type.members) ↔
    ∃ o, first? s parent selections key = some o ∧ P (o.members s options) := by
  have hk := @isKeyed_addSelections s options selections parent false _ .empty
  rw [membersOf, hk.exists_member_iff, below?_addSelections]
  simp [Members.empty, Members.below?]

-- The members of an object type are those for the paths that the first fields select.
theorem hasMember_iff (h : ∀ key isOptional type, (.response key isOptional, type) ∈ shape.members ↔
    (.response key isOptional, type) ∈ membersOf s options parent selections) :
    shape.HasMember path ↔ FirstSelects s parent selections path := by
  induction path generalizing shape parent selections
  case nil => simp [Shape.not_hasMember_nil, FirstSelects]
  case cons key path hi =>
    let P (members : List (MemberName × Shape)) : Prop :=
      path = [] ∨ (Shape.object members).HasMember path
    have hp : shape.HasMember (key :: path) ↔ ∃ isOptional type,
        (.response key isOptional, type) ∈ membersOf s options parent selections ∧
          P type.members :=
      Shape.hasMember_cons_iff.trans <| exists₂_congr fun _ _ => and_congr (h _ _ _) <|
        or_congr Iff.rfl <| Shape.hasMember_congr fun _ _ _ => Iff.rfl
    rw [hp, exists_member_iff, FirstSelects]
    refine exists_congr fun o => and_congr_right fun _ => or_congr_right ?_
    unfold Occurrence.members
    split
    case h_1 ho =>
      cases path <;>
        simp [Shape.hasMember_cons_iff, Shape.not_hasMember_nil, Shape.members, ho]
    case h_2 f ho => simpa [ho] using hi fun _ _ _ => Iff.rfl

end GraphqlArtifacts.Flow
