import GraphqlArtifacts.Proofs.Except
import GraphqlArtifacts.Proofs.Graphql.Names
import GraphqlArtifacts.Schema.Extension

-- What is asked of a builder of schemas, and what follows for a document that starts with the
-- directives for conditional selections.

namespace GraphqlArtifacts.Schema

open Graphql (Document Definition DirectiveDefinition InputDefinition OperationKind IsName)

def isDirective : Definition → Bool
  | .directive _ => true
  | _            => false

-- A document without its definitions of directives.
def undirected (d : Document) : Document :=
  d.filter (!isDirective ·)

def Declares (name : String) (d : Document) : Prop :=
  ∃ x, .directive x ∈ d ∧ x.name = name

variable {d : Document} {x : DirectiveDefinition} {name : String}

theorem mem_filterMap_directive :
    x ∈ d.filterMap directiveDefinition? ↔ Definition.directive x ∈ d := by
  rw [List.mem_filterMap]
  constructor
  case mp =>
    intro ⟨definition, hm, hx⟩
    cases definition <;> cases hx
    exact hm
  case mpr => exact fun hm => ⟨_, hm, rfl⟩

instance (name : String) (d : Document) : Decidable (Declares name d) :=
  decidable_of_iff (∃ x ∈ d.filterMap directiveDefinition?, x.name = name) <|
    exists_congr fun _ => and_congr_left' mem_filterMap_directive

-- An argument of a standard scalar, of which nothing else is said.
structure IsPlainArgument (a : InputDefinition) : Prop where
  name : IsName a.name
  type : ∃ scalar, isStandardScalar scalar ∧ a.type = .named scalar
  default : a.defaultValue = none
  directives : a.directives = []

-- The definition of a directive in which nothing can be wrong.
structure IsPlain (x : DirectiveDefinition) : Prop where
  name : IsName x.name
  arguments : ∀ a ∈ x.arguments, IsPlainArgument a
  distinct : (x.arguments.map (·.name)).Nodup
  locations : x.locations ⊆ Graphql.directiveLocations

-- A directive just as its definition has it.
def asWritten (x : DirectiveDefinition) : DirectiveType :=
  ⟨x.name, x.arguments.map fun a => ⟨a.name, a.type, none⟩, x.repeatable, x.locations⟩

-- Whether a directive of a schema has an argument of a type, or of lists of it.
def HasArgumentOf (s : Schema) (type : String) : Prop :=
  ∃ t ∈ s.directives, ∃ a ∈ t.arguments, a.type.baseName = type

variable {ε : Type}

-- A builder of schemas that reads nothing but the definitions, and builds each definition of a
-- directive on its own, from the types that the other definitions make. It adds a specified
-- directive if the document defines none of its name.
structure LawfulBuilder (builder : Document → Except ε Schema)
    (defined : Document → DirectiveDefinition → DirectiveType) (specified : List DirectiveType) :
    Prop where
  -- A document builds if it does without directives, and with each of them alone.
  builds (d : Document) : (∃ s, builder d = .ok s) ↔ (∃ s, builder (undirected d) = .ok s) ∧
    ∀ x, .directive x ∈ d → ∃ s, builder (.directive x :: undirected d) = .ok s
  -- A plain definition does no harm, and gives a directive as it is written.
  builds_plain {d : Document} {x : DirectiveDefinition} {s : Schema} : IsPlain x →
    builder (undirected d) = .ok s → ∃ s', builder (.directive x :: undirected d) = .ok s'
  defined_plain {d : Document} {x : DirectiveDefinition} : IsPlain x → defined d x = asWritten x
  defined_name (d : Document) (x : DirectiveDefinition) : (defined d x).name = x.name
  -- The directives are those that are defined, in order, and then the specified ones.
  directives {d : Document} {s : Schema} : builder d = .ok s → s.directives =
    (d.filterMap directiveDefinition?).map (defined (undirected d)) ++
      specified.filter fun t => ¬ Declares t.name d
  -- Directives matter to the types only by the types of their arguments. All schemas have the type
  -- of truth values, by which they describe themselves.
  types {d d' : Document} {s s' : Schema} : undirected d = undirected d' → builder d = .ok s →
    builder d' = .ok s' →
    (∀ type, type ≠ "Boolean" → (s.HasArgumentOf type ↔ s'.HasArgumentOf type)) →
      s.types.Perm s'.types ∧ s.rootName = s'.rootName
  -- The specified directives for conditional selections ask for truth values only.
  conditional {t : DirectiveType} {a : Input} : t ∈ specified → t.name ∈ ["include", "skip"] →
    a ∈ t.arguments → a.type.baseName = "Boolean"

-- The directives for conditional selections as they are defined, and as they are in a schema.
def providedDefinition (name : String) : DirectiveDefinition :=
  ⟨none, name, [⟨none, "if", .named "Boolean", none, []⟩], false, ["FRAGMENT_SPREAD", "FIELD"]⟩

def providedType (name : String) : DirectiveType :=
  ⟨name, [⟨"if", .named "Boolean", none⟩], false, ["FRAGMENT_SPREAD", "FIELD"]⟩

def providedTypes : List DirectiveType :=
  [providedType "include", providedType "skip"]

def DirectiveType.isProvided (t : DirectiveType) : Bool :=
  t.name = "include" || t.name = "skip"

-- A document after the definitions of these directives.
def withProvided (d : Document) : Document :=
  .directive (providedDefinition "include") :: .directive (providedDefinition "skip") :: d

-- These directives in place of those of their names.
def provided (ts : List DirectiveType) : List DirectiveType :=
  providedTypes ++ ts.filter (!·.isProvided)

theorem providedDefinition_plain (h : IsName name) : IsPlain (providedDefinition name) where
  name := h
  arguments := List.forall_mem_singleton.mpr ⟨by decide, ⟨_, by decide, rfl⟩, rfl, rfl⟩
  distinct := by simp [providedDefinition]
  locations := by
    simp only [providedDefinition]
    decide

theorem undirected_withProvided : undirected (withProvided d) = undirected d :=
  rfl

theorem declares_cons : Declares name (.directive x :: d) ↔ x.name = name ∨ Declares name d := by
  simp [Declares, or_and_right, exists_or]

theorem declares_withProvided :
    Declares name (withProvided d) ↔ name ∈ ["include", "skip"] ∨ Declares name d := by
  unfold withProvided
  rw [declares_cons, declares_cons, ← or_assoc]
  simp [providedDefinition, eq_comm]

namespace LawfulBuilder

variable {builder : Document → Except ε Schema}
  {defined : Document → DirectiveDefinition → DirectiveType} {specified : List DirectiveType}
  {s own : Schema} (hb : LawfulBuilder builder defined specified)

include hb

theorem builds_provided (hn : IsName name) (h : ∃ s, builder (undirected d) = .ok s) :
    ∃ s, builder (.directive (providedDefinition name) :: undirected d) = .ok s := by
  have ⟨_, hs⟩ := h
  exact hb.builds_plain (providedDefinition_plain hn) hs

theorem defined_provided (hn : IsName name) :
    defined d (providedDefinition name) = providedType name :=
  hb.defined_plain <| providedDefinition_plain hn

-- In front of other definitions, those of the directives decide nothing.
theorem builds_withProvided : (∃ s, builder (withProvided d) = .ok s) ↔ ∃ s, builder d = .ok s := by
  rw [hb.builds (withProvided d), hb.builds d, undirected_withProvided]
  refine and_congr_right fun hs => ?_
  constructor
  case mp => exact fun h x hx => h x <| List.mem_cons_of_mem _ <| List.mem_cons_of_mem _ hx
  case mpr =>
    intro h x hx
    cases hx
    case head => exact hb.builds_provided (by decide) hs
    case tail hx =>
      cases hx
      case head    => exact hb.builds_provided (by decide) hs
      case tail hx => exact h x hx

-- From here on, the document has no such directives of its own.
variable (hi : ¬ Declares "include" d) (hs : ¬ Declares "skip" d)

include hi hs

theorem not_isProvided_defined {t : DirectiveType}
    (ht : t ∈ (d.filterMap directiveDefinition?).map (defined (undirected d))) :
    ¬ t.isProvided := by
  have ⟨x, hx, hxt⟩ := List.mem_map.mp ht
  have hx := mem_filterMap_directive.mp hx
  have hi : x.name ≠ "include" := fun hn => hi ⟨x, hx, hn⟩
  have hs : x.name ≠ "skip" := fun hn => hs ⟨x, hx, hn⟩
  simp [DirectiveType.isProvided, ← hxt, hb.defined_name, hi, hs]

variable (h : builder (withProvided d) = .ok s) (ho : builder d = .ok own)

include h ho

theorem directives_withProvided : s.directives = provided own.directives := by
  have hd : (withProvided d).filterMap directiveDefinition? = providedDefinition "include" ::
    providedDefinition "skip" :: d.filterMap directiveDefinition? := rfl
  have hown : ((d.filterMap directiveDefinition?).map (defined (undirected d))).filter
      (!·.isProvided) = (d.filterMap directiveDefinition?).map (defined (undirected d)) :=
    List.filter_eq_self.mpr fun t ht => by simp [hb.not_isProvided_defined hi hs ht]
  have hspecified : specified.filter (fun t => ¬ Declares t.name (withProvided d)) =
      (specified.filter fun t => ¬ Declares t.name d).filter (!·.isProvided) := by
    rw [List.filter_filter]
    refine List.filter_congr fun t _ => ?_
    simp [declares_withProvided, DirectiveType.isProvided]
  rw [hb.directives h, hb.directives ho, hspecified, hd, undirected_withProvided, List.map_cons,
    List.map_cons, hb.defined_provided (by decide), hb.defined_provided (by decide), provided,
    List.filter_append, hown]
  rfl

-- All that is put in or left out has arguments of one type.
theorem hasArgumentOf_withProvided {type : String} (ht : type ≠ "Boolean") :
    s.HasArgumentOf type ↔ own.HasArgumentOf type := by
  have hd := hb.directives_withProvided hi hs h ho
  have hput : ∀ t ∈ providedTypes, ∀ a ∈ t.arguments, a.type.baseName = "Boolean" := by
    decide
  have hleft : ∀ t ∈ own.directives, t.isProvided → ∀ a ∈ t.arguments,
      a.type.baseName = "Boolean" := by
    intro t hm hn a ha
    rw [hb.directives ho] at hm
    obtain hm | hm := List.mem_append.mp hm
    case inl => exact absurd hn <| hb.not_isProvided_defined hi hs hm
    case inr =>
      have hn : t.name ∈ ["include", "skip"] := by simpa [DirectiveType.isProvided] using hn
      exact hb.conditional (List.mem_of_mem_filter hm) hn ha
  constructor
  case mp =>
    intro ⟨t, hm, a, ha, hat⟩
    rw [hd] at hm
    obtain hm | hm := List.mem_append.mp hm
    · exact absurd (hat.symm.trans <| hput t hm a ha) ht
    · exact ⟨t, List.mem_of_mem_filter hm, a, ha, hat⟩
  case mpr =>
    intro ⟨t, hm, a, ha, hat⟩
    have hn : ¬ t.isProvided := fun hn => ht <| hat.symm.trans <| hleft t hm hn a ha
    have hm : t ∈ own.directives.filter (!·.isProvided) := List.mem_filter.mpr ⟨hm, by simp [hn]⟩
    exact ⟨t, hd ▸ List.mem_append_right _ hm, a, ha, hat⟩

theorem types_withProvided : s.types.Perm own.types ∧ s.rootName = own.rootName :=
  hb.types undirected_withProvided h ho fun _ ht => hb.hasArgumentOf_withProvided hi hs h ho ht

end LawfulBuilder

-- Directives of other names stay as they are.
theorem provided_others (ts : List DirectiveType) :
    (provided ts).filter (!·.isProvided) = ts.filter (!·.isProvided) := by
  have hp : providedTypes.filter (!·.isProvided) = [] := by decide
  simp [provided, hp]

theorem filter_provided (hn : name ∈ ["include", "skip"]) (ts : List DirectiveType) :
    (provided ts).filter (·.name = name) = [providedType name] := by
  have hp : providedTypes.filter (·.name = name) = [providedType name] := by
    simp only [List.mem_cons, List.not_mem_nil, or_false] at hn
    obtain rfl | rfl := hn <;> rfl
  have hs : (ts.filter (!·.isProvided)).filter (·.name = name) = [] := by
    rw [List.filter_filter, List.filter_eq_nil_iff]
    intro t _ h
    have ⟨ht, hp⟩ : t.name = name ∧ ¬ t.isProvided := by simpa using h
    rw [← ht] at hn
    exact hp <| by simpa [DirectiveType.isProvided] using hn
  simp [provided, hp, hs]

end GraphqlArtifacts.Schema
