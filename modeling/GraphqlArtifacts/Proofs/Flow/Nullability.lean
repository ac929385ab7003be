import Mathlib.Data.List.Forall2
import GraphqlArtifacts.Proofs.Flow.InputTypes
import GraphqlArtifacts.Proofs.Flow.Printing
import GraphqlArtifacts.Proofs.Graphql.Levels

-- How types around scalars and enums are printed. For a response as for variables, the text tells
-- how lists are nested and what in them is nullable.

namespace GraphqlArtifacts

open Graphql (TypeRef Selection VariableDefinition)

-- The name is that of a scalar or of an enum.
def Schema.IsLeaf (s : Schema) (name : String) : Prop :=
  ∃ type, s.type? name = some type ∧ (type.body = .scalar ∨ ∃ values, type.body = .enum values)

namespace Flow

-- The text of a leaf inside of levels: each that is nullable has a mark, each list is an array.
def nestedText (leaf : String) : List Bool → String
  | []                   => leaf
  | isNullable :: levels =>
    (if isNullable then "?" else "") ++
      if levels.isEmpty then leaf else "$ReadOnlyArray<" ++ nestedText leaf levels ++ ">"

-- The levels that a text starts with, after the mark of the first one.
def readLevels (isNullable : Bool) : List Char → List Bool
  | '?' :: rest => readLevels true rest
  | '$' :: rest => isNullable :: readLevels false (rest.drop "ReadOnlyArray<".length)
  | _           => [isNullable]
termination_by text => text.length

-- The text starts like no type around another one.
def StartsPlain (text : List Char) : Prop :=
  text.head? ≠ some '?' ∧ text.head? ≠ some '$'

instance (text : List Char) : Decidable (StartsPlain text) :=
  inferInstanceAs (Decidable (_ ∧ _))

-- The type of a field for a response.
def outputShape (s : Schema) (options : TypeOptions) (type : TypeRef)
    (selections : List Selection) : Shape :=
  let named := s.type? type.baseName
  wrapped (if selections.isEmpty then leafShape options named
    else .object (membersOf s options named selections)) type

-- What stands for a type: in a response where nothing is selected below, or for input.
inductive StandsFor (s : Schema) (options : TypeOptions) : TypeRef → Shape → Prop
  | output {type} : StandsFor s options type (outputShape s options type [])
  | input {type around inner} (he : Expands s options around type.baseName inner) :
      StandsFor s options type (wrapped inner type)

variable {s : Schema} {options : TypeOptions} {parent : Option Schema.NamedType}
  {selections : List Selection} {type type' : TypeRef} {shape shape' : Shape} {leaf name : String}
  {levels : List Bool} {text text' : List Char} {m : Members} {r r' : Response} {depth depth' : Nat}
  {v : VariableDefinition} {memberName : MemberName} {key : String} {isOptional : Bool}

-- Printing

theorem bare_list (item : TypeRef) :
    wrapped.bare shape (.list item) = .array (wrapped shape item) := by
  cases item <;> rfl

-- The mark in front is all that the levels of a nullable type have more.
theorem print_wrapped_of_bare
    (h : (wrapped.bare shape type).print depth =
      nestedText (shape.print depth) (false :: type.levels.tail)) :
    (wrapped shape type).print depth = nestedText (shape.print depth) type.levels := by
  cases hn : type.isNonNull
  case true =>
    cases type
    case nonNull => exact h
    all_goals contradiction
  case false =>
    have hw : wrapped shape type = .nullable (wrapped.bare shape type) := by
      cases type
      case nonNull => contradiction
      all_goals rfl
    rw [hw, Shape.print_nullable, h, TypeRef.levels_of_not_isNonNull hn]
    simp [nestedText]

theorem print_bare (type : TypeRef) : (wrapped.bare shape type).print depth =
    nestedText (shape.print depth) (false :: type.levels.tail) := by
  induction type
  case named      => simp [wrapped.bare, TypeRef.levels, nestedText]
  case nonNull hi => exact hi
  case list hi    =>
    rw [bare_list, Shape.print_array, print_wrapped_of_bare hi]
    simp [TypeRef.levels, nestedText, TypeRef.levels_ne_nil]

theorem print_wrapped (type : TypeRef) :
    (wrapped shape type).print depth = nestedText (shape.print depth) type.levels :=
  print_wrapped_of_bare (print_bare type)

-- Reading

theorem StartsPlain.append (h : StartsPlain text) (h' : StartsPlain text') :
    StartsPlain (text ++ text') := by
  cases text
  case nil  => exact h'
  case cons => exact h

theorem readLevels_of_startsPlain (h : StartsPlain text) (isNullable : Bool) :
    readLevels isNullable text = [isNullable] := by
  obtain ⟨hm, hd⟩ := h
  rw [readLevels]
  · rintro rest rfl
    exact hm rfl
  · rintro rest rfl
    exact hd rfl

theorem readLevels_mark (isNullable : Bool) :
    readLevels false ((if isNullable then "?" else "").toList ++ text) =
      readLevels isNullable text := by
  cases isNullable
  case false => rfl
  case true  => simp [readLevels]

theorem readLevels_array (isNullable : Bool) :
    readLevels isNullable ("$ReadOnlyArray<".toList ++ text) =
      isNullable :: readLevels false text := by
  have hn : "ReadOnlyArray<".length = 14 := rfl
  simp [readLevels, hn]

-- Arrays end after the leaf, so what follows it grows with the levels around it.
theorem readLevels_nestedText (hl : StartsPlain leaf.toList) (ht : StartsPlain text)
    (h : levels ≠ []) : readLevels false ((nestedText leaf levels).toList ++ text) = levels := by
  induction levels generalizing text
  case nil => contradiction
  case cons isNullable levels hi =>
    simp only [nestedText, String.toList_append, List.append_assoc, readLevels_mark]
    split
    case isTrue hn =>
      rw [readLevels_of_startsPlain (hl.append ht), List.isEmpty_iff.mp hn]
    case isFalse hn =>
      simp only [String.toList_append, List.append_assoc, readLevels_array]
      rw [hi (by simp [StartsPlain]) (by simpa using hn)]

theorem readLevels_levels (h : StartsPlain leaf.toList) (type : TypeRef) :
    readLevels false (nestedText leaf type.levels).toList = type.levels := by
  have hr := @readLevels_nestedText leaf type.levels [] h (by simp [StartsPlain])
  simpa using hr TypeRef.levels_ne_nil

-- What stands for types

theorem inputFields?_of_isLeaf (h : s.IsLeaf name) : s.inputFields? name = none := by
  obtain ⟨⟨_, _, body⟩, ht, hb⟩ := h
  rw [Schema.inputFields?, ht]
  obtain rfl | ⟨_, rfl⟩ := hb <;> rfl

theorem StandsFor.eq_wrapped (h : StandsFor s options type shape) (hl : s.IsLeaf type.baseName) :
    shape = wrapped (leafShape options (s.type? type.baseName)) type := by
  cases h
  case output   => rfl
  case input he => rw [(expands_leaf_iff <| inputFields?_of_isLeaf hl).mp he]

theorem StandsFor.print_eq (h : StandsFor s options type shape) (hl : s.IsLeaf type.baseName)
    (hs : leafShape options (s.type? type.baseName) = .leaf leaf) (depth : Nat) :
    shape.print depth = nestedText leaf type.levels := by
  rw [h.eq_wrapped hl, print_wrapped, hs, Shape.print_leaf]

-- Types around one name do not look alike. None that is read has two marks on one level.
theorem StandsFor.type_eq (h : StandsFor s options type shape)
    (h' : StandsFor s options type' shape') (hl : s.IsLeaf type.baseName)
    (hs : leafShape options (s.type? type.baseName) = .leaf leaf) (hplain : StartsPlain leaf.toList)
    (hn : type'.baseName = type.baseName) (ht : type.isProper) (ht' : type'.isProper)
    (he : shape'.print depth' = shape.print depth) : type' = type := by
  refine TypeRef.eq_of_levels ht' ht hn ?_
  calc type'.levels
    _ = readLevels false (shape'.print depth').toList := by
      rw [h'.print_eq (hn ▸ hl) (hn ▸ hs), readLevels_levels hplain]
    _ = readLevels false (shape.print depth).toList := by rw [he]
    _ = type.levels := by rw [h.print_eq hl hs, readLevels_levels hplain]

-- Members for input

theorem text_input (key : String) (type : TypeRef) : (MemberName.input key !type.isNonNull).text =
    key ++ (if type.isNonNull then "" else "?") ++ ": " := by
  cases type.isNonNull <;> rfl

-- A member of an input type is optional if and only if it is nullable.
theorem Expands.object_members {around : List String} {members : List (MemberName × Shape)}
    (h : Expands s options around name (.object members)) :
    ∃ fields, s.inputFields? name = some fields ∧ List.Forall₂ (fun f m =>
      m.1.text = f.name ++ (if f.type.isNonNull then "" else "?") ++ ": " ∧
        StandsFor s options f.type m.2) fields members := by
  generalize hm : Shape.object members = shape at h
  cases h
  case again => contradiction
  case leaf  =>
    have ⟨_, hs⟩ := exists_leafShape options (s.type? name)
    exact absurd (hm.trans hs) (by simp)
  case object fields shape hi ha hf =>
    obtain rfl := Shape.object.inj hm
    refine ⟨fields, hi, List.forall₂_map_right_iff.mpr <| List.forall₂_same.mpr fun f hm => ?_⟩
    exact ⟨text_input .., .input (hf f hm)⟩

theorem standsFor_of_variableMember (h : variableMember s options v = .ok (memberName, shape)) :
    memberName.text = v.name ++ (if v.type.isNonNull then "" else "?") ++ ": " ∧
    StandsFor s options v.type shape ∧
    ∀ path members, shape.At path (.object members) →
      ∃ around type fields, Chain s [] v.type.baseName path around type ∧
        s.inputFields? type = some fields ∧ List.Forall₂ (fun f m =>
          m.1.text = f.name ++ (if f.type.isNonNull then "" else "?") ++ ": " ∧
            StandsFor s options f.type m.2) fields members := by
  unfold variableMember at h
  split at h
  case isFalse => contradiction
  case isTrue  =>
    cases h
    have he := expands_variable s options v.type.baseName
    refine ⟨text_input .., .input he, fun path members hat => ?_⟩
    have ⟨around, type, hc, _, hm⟩ := (he.at_iff .nil).mp <| (at_wrapped_iff _).mp hat
    have ⟨fields, hi, hf⟩ := hm.object_members
    exact ⟨around, type, fields, hc, hi, hf⟩

-- Members for responses

theorem mem_withResponse (h : r ∈ (m.withResponse r').responses) : r ∈ m.responses ∨ r = r' := by
  unfold Members.withResponse at h
  split at h
  · exact .inl h
  · simpa using h

-- The member is that of a field, as its type is printed.
def Response.IsOf (s : Schema) (options : TypeOptions) (r : Response) (o : Occurrence) : Prop :=
  o.key = r.key ∧ ∀ f, o.field? = some f → r.shape = outputShape s options f.type o.selections

mutual

theorem isOf_of_mem_addSelection : (selection : Selection) → ∀ parent isOptional m,
    ∀ r ∈ (addSelection s options parent isOptional m selection).responses,
      r ∈ m.responses ∨ ∃ o ∈ occurrencesOf s parent selection, r.IsOf s options o
  | .field renamed name _ _ inner, parent, isOptional, m, r, h => by
    simp only [addSelection] at h
    refine (mem_withResponse h).imp_right fun h => ⟨_, List.mem_singleton_self _, ?_⟩
    subst h
    refine ⟨rfl, fun f hf => ?_⟩
    simp only [definedField?] at hf
    split at hf
    case isTrue  => contradiction
    case isFalse hn => simp [hn, hf, outputShape, membersOf]
  | .inlineFragment condition _ inner, parent, isOptional, m, r, h => by
    simp only [addSelection] at h
    exact isOf_of_mem_addSelections inner _ _ m r h
  | .spread .., _, _, _, _, h => .inl h

theorem isOf_of_mem_addSelections : (selections : List Selection) → ∀ parent isOptional m,
    ∀ r ∈ (addSelections s options parent isOptional m selections).responses,
      r ∈ m.responses ∨ ∃ o ∈ occurrences s parent selections, r.IsOf s options o
  | [], _, _, _, _, h => .inl h
  | selection :: rest, parent, isOptional, m, r, h => by
    simp only [addSelections] at h
    simp only [occurrences, List.mem_append]
    obtain h | ⟨o, ho, hr⟩ := isOf_of_mem_addSelections rest _ _ _ r h
    case inl =>
      refine (isOf_of_mem_addSelection selection _ _ m r h).imp_right ?_
      exact fun ⟨o, ho, hr⟩ => ⟨o, .inl ho, hr⟩
    case inr => exact .inr ⟨o, .inr ho, hr⟩

end

theorem isOf_of_mem_membersOf
    (h : (.response key isOptional, shape) ∈ membersOf s options parent selections) :
    ∃ o ∈ occurrences s parent selections, Response.IsOf s options ⟨key, isOptional, shape⟩ o := by
  have h := isOf_of_mem_addSelections _ _ _ _ _ <| Members.response_mem_named_iff.mp h
  exact h.resolve_left (by simp [Members.empty])

-- Each member for a response is that of a field with its key, each one for input is marked in its
-- key if and only if its type is nullable. Around scalars and enums, the types of both are printed
-- with a mark for each nullable level and an array for each list. All levels can be read from that,
-- so that no two types around one name look alike.
theorem members_tell_nesting (s : Schema) (options : TypeOptions) :
    (∀ parent selections key isOptional shape,
      (.response key isOptional, shape) ∈ membersOf s options parent selections →
        ∃ o ∈ occurrences s parent selections, o.key = key ∧
          ∀ f, o.field? = some f → shape = outputShape s options f.type o.selections) ∧
    (∀ v name shape, variableMember s options v = .ok (name, shape) →
      name.text = v.name ++ (if v.type.isNonNull then "" else "?") ++ ": " ∧
      StandsFor s options v.type shape ∧
      ∀ path members, shape.At path (.object members) →
        ∃ around type fields, Chain s [] v.type.baseName path around type ∧
          s.inputFields? type = some fields ∧ List.Forall₂ (fun f m =>
            m.1.text = f.name ++ (if f.type.isNonNull then "" else "?") ++ ": " ∧
              StandsFor s options f.type m.2) fields members) ∧
    ∀ name, s.IsLeaf name → ∃ leaf, leafShape options (s.type? name) = .leaf leaf ∧
      ∀ type shape depth, type.baseName = name → StandsFor s options type shape →
        shape.print depth = nestedText leaf type.levels ∧
        (StartsPlain leaf.toList →
          readLevels false (shape.print depth).toList = type.levels ∧
          ∀ type' shape' depth', type'.baseName = name → StandsFor s options type' shape' →
            type.isProper → type'.isProper → shape'.print depth' = shape.print depth →
              type' = type) := by
  refine ⟨?output, fun _ _ _ => standsFor_of_variableMember, ?leaves⟩
  case output =>
    intro parent selections key isOptional shape h
    have ⟨o, ho, hk, hs⟩ := isOf_of_mem_membersOf h
    exact ⟨o, ho, hk, hs⟩
  case leaves =>
    intro name hl
    have ⟨leaf, hs⟩ := exists_leafShape options (s.type? name)
    refine ⟨leaf, hs, ?_⟩
    rintro type shape depth rfl h
    refine ⟨h.print_eq hl hs depth, fun hplain => ⟨?_, ?_⟩⟩
    · rw [h.print_eq hl hs, readLevels_levels hplain]
    · exact fun _ _ _ hn h' ht ht' he => h.type_eq h' hl hs hplain hn ht ht' he

-- A list that may be missing but has no gaps, and one with gaps that is there.
def wholeSeats : TypeRef :=
  .list (.nonNull (.named "Seat"))

def someSeats : TypeRef :=
  .nonNull (.list (.named "Seat"))

def seatSchema : Schema :=
  ⟨none, none, none, [⟨"Seat", none, .scalar⟩,
    ⟨"Wish", none, .input [⟨"whole", wholeSeats, none⟩, ⟨"some", someSeats, none⟩]⟩], []⟩

def seatOptions : TypeOptions :=
  ⟨[("Seat", "SeatCode")], false⟩

def wishVariable : VariableDefinition :=
  ⟨"wish", .nonNull (.named "Wish"), none, []⟩

theorem wishVariable_tells_nesting : ∃ wish whole part,
    variableMember seatSchema seatOptions wishVariable = .ok (.input "wish" false, wish) ∧
    wish.At [] (.object [(.input "whole" true, whole), (.input "some" false, part)]) ∧
    whole.print 2 = "?$ReadOnlyArray<SeatCode>" ∧
    readLevels false (whole.print 2).toList = [true, false] ∧
    part.print 2 = "$ReadOnlyArray<?SeatCode>" ∧
    (outputShape seatSchema seatOptions someSeats []).print 2 ≠ whole.print 2 := by
  have ⟨_, hinput, hleaves⟩ := members_tell_nesting seatSchema seatOptions
  have ⟨_, _, hmembers⟩ := hinput wishVariable _ _ rfl
  obtain ⟨leaf, hl, hprint⟩ := hleaves "Seat" ⟨_, rfl, .inl rfl⟩
  obtain rfl : leaf = "SeatCode" := Shape.leaf.inj hl.symm
  obtain ⟨_, _, _, hc, hi, hf⟩ := hmembers [] _ .here
  cases hc
  cases hi
  obtain _ | ⟨⟨_, hwhole⟩, _ | ⟨⟨_, hpart⟩, _⟩⟩ := hf
  obtain ⟨hw, hread⟩ := hprint _ _ 2 rfl hwhole
  obtain ⟨hlevels, hunique⟩ := hread (by decide)
  refine ⟨_, _, _, rfl, .here, hw, hlevels, (hprint _ _ 2 rfl hpart).left, fun he => ?_⟩
  exact absurd (hunique someSeats _ 2 rfl .output rfl rfl he) (by decide)

end Flow

end GraphqlArtifacts
