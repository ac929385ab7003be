import Mathlib.Data.List.Nodup
import Mathlib.Data.Prod.Lex
import Mathlib.Order.WellFounded
import GraphqlArtifacts.Proofs.Flow.Members

-- Types of variables. An input type stands for an object type with all that its fields stand for,
-- but inside of itself it is any value, so that each expansion comes to an end.

namespace GraphqlArtifacts

open Graphql (TypeRef VariableDefinition)

-- The fields of an input type.
def Schema.inputFields? (s : Schema) (name : String) : Option (List Schema.Input) :=
  match s.type? name with
  | some ⟨_, _, .input fields⟩ => some fields
  | _                          => none

namespace Flow

open Schema (Input)

-- What expanding a type asks for, inside of some input types: the types within it and, unless it is
-- one of those around it, the types of its fields.
inductive Asks (s : Schema) : List String × TypeRef → List String × TypeRef → Prop
  | mark {around type} : Asks s (around, type) (around, .nonNull type)
  | item {around type} : Asks s (around, type) (around, .list type)
  | field {around name fields f} (hi : s.inputFields? name = some fields) (ha : name ∉ around)
      (hf : f ∈ fields) : Asks s (name :: around, f.type) (around, .named name)

-- What a name stands for, inside of some input types.
inductive Expands (s : Schema) (options : TypeOptions) : List String → String → Shape → Prop
  | again {around name fields} (hi : s.inputFields? name = some fields) (ha : name ∈ around) :
      Expands s options around name (.leaf "any")
  | object {around name fields} {shape : Input → Shape} (hi : s.inputFields? name = some fields)
      (ha : name ∉ around)
      (hf : ∀ f ∈ fields, Expands s options (name :: around) f.type.baseName (shape f)) :
      Expands s options around name
        (.object (fields.map fun f => (.input f.name !f.type.isNonNull, wrapped (shape f) f.type)))
  | leaf {around name} (hi : s.inputFields? name = none) :
      Expands s options around name (leafShape options (s.type? name))

-- A path of fields leads from an input type to another one. With it come the types that it leads
-- through, the innermost first.
inductive Chain (s : Schema) : List String → String → List String → List String → String → Prop
  | here {around name} : Chain s around name [] around name
  | inside {around name fields f path around' last} (hi : s.inputFields? name = some fields)
      (hf : f ∈ fields) (hc : Chain s (name :: around) f.type.baseName path around' last) :
      Chain s around name (f.name :: path) around' last

namespace Shape

-- A type without the arrays and marks around it.
def core : Shape → Shape
  | .nullable type => type.core
  | .array item    => item.core
  | shape          => shape

-- What stands at the end of a path through members for input.
inductive At : Shape → List String → Shape → Prop
  | here {shape} : At shape [] shape.core
  | inside {shape key isOptional type path inner}
      (h : (.input key isOptional, type) ∈ shape.members) (ha : At type path inner) :
      At shape (key :: path) inner

end Shape

variable {s : Schema} {options : TypeOptions} {around around' : List String} {name last key : String}
  {type : TypeRef} {shape shape' inner : Shape} {fields : List Input} {path : List String}
  {fuel : Nat}

-- The input types that are left

-- The number of types that are not around.
def unused (s : Schema) (around : List String) : Nat :=
  (s.types.filter fun t => !around.contains t.name).length

theorem unused_cons_lt (hi : s.inputFields? name = some fields) (ha : name ∉ around) :
    unused s (name :: around) < unused s around := by
  obtain ⟨t, ht⟩ : ∃ t, s.type? name = some t := by
    cases ht : s.type? name
    case none   => simp [Schema.inputFields?, ht] at hi
    case some t => exact ⟨t, rfl⟩
  have hm : t ∈ s.types := List.mem_of_find?_eq_some ht
  have hn : t.name = name := by simpa using List.find?_some ht
  have hsplit : (s.types.filter fun t => !(name :: around).contains t.name) =
      (s.types.filter fun t => !around.contains t.name).filter (·.name != name) := by
    rw [List.filter_filter]
    exact List.filter_congr fun t _ => by simp [bne, beq_eq_decide]
  rw [unused, unused, hsplit, List.length_filter_lt_length_iff_exists]
  exact ⟨t, List.mem_filter.mpr ⟨hm, by simpa [hn] using ha⟩, by simp [hn]⟩

-- Nothing is asked for without end.
theorem wellFounded_asks (s : Schema) : WellFounded (Asks s) := by
  have h : WellFounded (Prod.Lex (· < ·) (· < ·) : Nat × Nat → Nat × Nat → Prop) :=
    WellFounded.prod_lex Nat.lt_wfRel.wf Nat.lt_wfRel.wf
  refine Subrelation.wf ?_ (InvImage.wf (fun call => (unused s call.1, sizeOf call.2)) h)
  intro inner outer hc
  cases hc
  case mark             => exact .right _ (by simp)
  case item             => exact .right _ (by simp)
  case field hi ha hf   => exact .left _ _ (unused_cons_lt hi ha)

-- Expanding

theorem expands_again_iff (hi : s.inputFields? name = some fields) (ha : name ∈ around) :
    Expands s options around name shape ↔ shape = .leaf "any" := by
  constructor
  case mp =>
    intro h
    cases h
    case again        => rfl
    case object hn _  => exact absurd ha hn
    case leaf hn      => simp [hn] at hi
  case mpr => exact fun h => h ▸ .again hi ha

theorem expands_leaf_iff (hi : s.inputFields? name = none) :
    Expands s options around name shape ↔ shape = leafShape options (s.type? name) := by
  constructor
  case mp =>
    intro h
    cases h
    case again hn _    => simp [hn] at hi
    case object hn _ _ => simp [hn] at hi
    case leaf          => rfl
  case mpr => exact fun h => h ▸ .leaf hi

theorem Expands.unique (h : Expands s options around name shape)
    (h' : Expands s options around name shape') : shape = shape' := by
  induction h generalizing shape'
  case again hi ha => exact ((expands_again_iff hi ha).mp h').symm
  case leaf hi     => exact ((expands_leaf_iff hi).mp h').symm
  case object around name fields shape hi ha hf ih =>
    cases h'
    case again hn       => exact absurd hn ha
    case leaf hn        => simp [hn] at hi
    case object fields' shape' hi' _ hf' =>
      obtain rfl : fields = fields' := Option.some.inj <| hi.symm.trans hi'
      have hs : ∀ f ∈ fields, shape f = shape' f := fun f hm => ih f hm (hf' f hm)
      exact congrArg Shape.object <| List.map_congr_left fun f hm => by rw [hs f hm]

-- The bound on the depth is never met: what comes out follows the rules, which have none.
theorem expands_inputShape (hf : unused s around < fuel) :
    Expands s options around name (inputShape s options fuel around name) := by
  induction fuel generalizing around name
  case zero => omega
  case succ fuel ih =>
    unfold inputShape
    split
    case h_1 t _ _ fields ht =>
      have hi : s.inputFields? name = some fields := by simp [Schema.inputFields?, ht]
      split
      case isTrue ha => exact .again hi (by simpa using ha)
      case isFalse ha =>
        have hn : name ∉ around := by simpa using ha
        refine .object hi hn fun f _ => ih ?_
        have := unused_cons_lt hi hn
        omega
    case h_2 hn =>
      refine .leaf ?_
      unfold Schema.inputFields?
      split
      case h_1 ht => exact absurd ht (hn _ _ _)
      case h_2    => rfl

-- As many types may be around a variable's as the schema has.
theorem expands_variable (s : Schema) (options : TypeOptions) (name : String) :
    Expands s options [] name (inputShape s options (s.types.length + 1) [] name) :=
  expands_inputShape <| Nat.lt_succ_of_le <| List.length_filter_le _ _

-- Chains

theorem Chain.suffix (h : Chain s around name path around' last) : around <:+ around' := by
  induction h
  case here      => exact List.suffix_rfl
  case inside hi => exact (List.suffix_cons _ _).trans hi

@[simp]
theorem core_bare (type : TypeRef) : (wrapped.bare shape type).core = shape.core := by
  induction type
  case named        => rfl
  case nonNull _ hi => exact hi
  case list item hi =>
    cases item
    case nonNull => exact hi
    all_goals    exact hi

@[simp]
theorem core_wrapped (type : TypeRef) : (wrapped shape type).core = shape.core := by
  cases type <;> exact core_bare _

theorem at_nil_iff : shape.At [] inner ↔ inner = shape.core := by
  constructor
  case mp  => rintro ⟨⟩; rfl
  case mpr => rintro rfl; exact .here

theorem at_cons_iff : shape.At (key :: path) inner ↔
    ∃ isOptional type, (.input key isOptional, type) ∈ shape.members ∧ type.At path inner := by
  constructor
  case mp  => rintro ⟨⟩; exact ⟨_, _, ‹_›, ‹_›⟩
  case mpr => exact fun ⟨_, _, h, ha⟩ => .inside h ha

theorem at_wrapped_iff (type : TypeRef) :
    (wrapped shape type).At path inner ↔ shape.At path inner := by
  cases path
  case nil  => simp [at_nil_iff]
  case cons => simp [at_cons_iff]

theorem core_leafShape (type : Option Schema.NamedType) :
    (leafShape options type).core = leafShape options type := by
  have ⟨_, h⟩ := exists_leafShape options type
  simp [h, Shape.core]

theorem Expands.core (h : Expands s options around name shape) : shape.core = shape := by
  cases h
  case again  => rfl
  case object => rfl
  case leaf   => exact core_leafShape _

-- Below a type stand the expansions of those that chains lead to, as long as no type comes twice.
theorem Expands.at_iff (h : Expands s options around name shape) (hn : around.Nodup) :
    shape.At path inner ↔ ∃ around' last, Chain s around name path around' last ∧ around'.Nodup ∧
      Expands s options around' last inner := by
  induction path generalizing around name shape
  case nil =>
    rw [at_nil_iff, h.core]
    constructor
    case mp =>
      rintro rfl
      exact ⟨around, name, .here, hn, h⟩
    case mpr =>
      rintro ⟨_, _, hc, _, he⟩
      cases hc
      exact he.unique h
  case cons key path ih =>
    rw [at_cons_iff]
    cases h
    case again hi ha =>
      constructor
      case mp => simp [Shape.members]
      case mpr =>
        rintro ⟨_, _, hc, hd, _⟩
        cases hc
        case inside hc => exact absurd ha (List.nodup_cons.mp <| hc.suffix.sublist.nodup hd).left
    case leaf hi =>
      constructor
      case mp => simp [members_leafShape]
      case mpr =>
        rintro ⟨_, _, hc, _⟩
        cases hc
        case inside hi' _ => simp [hi] at hi'
    case object fields shape hi ha hf =>
      have hn' : (name :: around).Nodup := List.nodup_cons.mpr ⟨ha, hn⟩
      simp only [Shape.members, List.mem_map, Prod.mk.injEq, MemberName.input.injEq]
      constructor
      case mp =>
        rintro ⟨_, _, ⟨f, hm, ⟨rfl, rfl⟩, rfl⟩, hat⟩
        have ⟨around', last, hc, hd⟩ := (ih (hf f hm) hn').mp <| (at_wrapped_iff _).mp hat
        exact ⟨around', last, .inside hi hm hc, hd⟩
      case mpr =>
        rintro ⟨around', last, hc, hd⟩
        cases hc
        case inside fields' f hm hi' hc =>
          obtain rfl : fields = fields' := Option.some.inj <| hi.symm.trans hi'
          exact ⟨_, _, ⟨f, hm, ⟨rfl, rfl⟩, rfl⟩,
            (at_wrapped_iff _).mpr <| (ih (hf f hm) hn').mpr ⟨around', last, hc, hd⟩⟩

-- Each type that variables can have is expanded, by rules that have no bound and never ask for more
-- without end. What stands at the end of a path is the expansion of the type that a chain of fields
-- leads to, where no type before it comes twice. An input type is any value just inside of itself.
theorem variableMember_expands {v : VariableDefinition} (h : s.resolves v.type) :
    ∃ shape, variableMember s options v = .ok (.input v.name !v.type.isNonNull, shape) ∧
      WellFounded (Asks s) ∧
      (∃ expansion, Expands s options [] v.type.baseName expansion ∧
        shape = wrapped expansion v.type) ∧
      (∀ path inner, shape.At path inner ↔ ∃ around last,
        Chain s [] v.type.baseName path around last ∧ around.Nodup ∧
          Expands s options around last inner) ∧
      ∀ around last fields inner, s.inputFields? last = some fields →
        Expands s options around last inner → (inner = .leaf "any" ↔ last ∈ around) := by
  have he := expands_variable s options v.type.baseName
  refine ⟨_, if_pos h, wellFounded_asks s, ⟨_, he, rfl⟩, fun path inner => ?_, ?_⟩
  case refine_1 => rw [at_wrapped_iff, he.at_iff .nil]
  case refine_2 =>
    intro around last fields inner hi hl
    cases hl
    case again ha    => simp [ha]
    case object ha _ => simp [ha]
    case leaf hn     => simp [hn] at hi

-- Filters have filters in them, by themselves and through the ranges that they list.
def rangesField : Input :=
  ⟨"ranges", .nonNull (.list (.nonNull (.named "Range"))), none⟩

def withinField : Input :=
  ⟨"within", .list (.named "Filter"), none⟩

def filterSchema : Schema :=
  ⟨none, none, none, [⟨"Filter", none, .input [⟨"not", .named "Filter", none⟩, rangesField]⟩,
    ⟨"Range", none, .input [withinField]⟩], []⟩

def filterVariable : VariableDefinition :=
  ⟨"where", .list (.nonNull (.named "Filter")), none, []⟩

theorem variableMember_filter : filterSchema.resolves filterVariable.type ∧
    ∃ shape, variableMember filterSchema ⟨[], false⟩ filterVariable =
        .ok (.input "where" true, shape) ∧
      shape.At ["ranges", "within"] (.leaf "any") := by
  have hr : filterSchema.resolves filterVariable.type := by decide
  have ⟨shape, hv, _, _, hat, _⟩ := @variableMember_expands filterSchema ⟨[], false⟩ filterVariable hr
  refine ⟨hr, shape, hv, (hat _ _).mpr ⟨["Range", "Filter"], "Filter", ?_, by decide, ?_⟩⟩
  · exact .inside (f := rangesField) rfl (.tail _ (.head _)) <|
      .inside (f := withinField) rfl (.head _) .here
  · exact .again rfl (by decide)

end Flow

end GraphqlArtifacts
