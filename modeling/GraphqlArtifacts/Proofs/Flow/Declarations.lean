import GraphqlArtifacts.Flow.Types
import GraphqlArtifacts.Proofs.Data.Lookup
import GraphqlArtifacts.Proofs.Flow.Printing
import GraphqlArtifacts.Proofs.Schema.Names
import GraphqlArtifacts.Proofs.Text.Order

-- The text of the types of an operation or fragment can stand in a comment, its brackets match and
-- its lines are indented by the objects that they are in.

namespace GraphqlArtifacts.Flow

open Graphql (Definition Fragment IsName Operation Selection TypeRef)

-- The shapes of types

variable {s : Schema} {options : TypeOptions} {leaf : Shape} {selections : List Selection}
  {name : String} {rest : List Char}

-- The texts for custom scalars are on one line and have no brackets in them.
def HasPlainScalars (options : TypeOptions) : Prop :=
  ∀ scalar ∈ options.customScalars, ∀ c ∈ scalar.2.toList,
    c ∉ ['\n', '\x7b', '\x7d', '|', '<', '>', '*']

theorem fits_bare (h : leaf.Fits) (type : TypeRef) : (wrapped.bare leaf type).Fits := by
  fun_induction wrapped.bare leaf type
  case case1    => exact h
  case case2 hi => exact .array hi
  case case3 hi => exact .array (.nullable hi)
  case case4 hi => exact hi

theorem fits_wrapped (h : leaf.Fits) (type : TypeRef) : (wrapped leaf type).Fits := by
  unfold wrapped
  split
  · exact fits_bare h _
  · exact .nullable (fits_bare h _)

theorem isQuiet_enumValue {value : String} (h : IsName value) : isQuiet s!"'{value}'".toList := by
  have he : s!"'{value}'" = "'" ++ value ++ "'" := rfl
  rw [he, String.toList_append, String.toList_append, List.append_assoc]
  exact isQuiet_append (by decide) (isQuiet_append (isQuiet_name h) (by decide))

theorem isQuiet_scalar (ho : HasPlainScalars options) (name : String) :
    isQuiet (((Data.lookup name options.customScalars).orElse
      fun _ => Data.lookup name scalarTypes).getD "any").toList := by
  cases hc : Data.lookup name options.customScalars
  case some text =>
    have hq : isQuiet text.toList := isQuiet_of_forall fun c hm => by
      have := ho _ (Data.mem_of_lookup hc) c hm
      simp_all
    simpa using hq
  case none =>
    have hstandard : ∀ scalar ∈ scalarTypes, isQuiet scalar.2.toList := by decide
    cases hs : Data.lookup name scalarTypes
    case none      => decide
    case some text => simpa using hstandard _ (Data.mem_of_lookup hs)

theorem fits_leafShape (ho : HasPlainScalars options) {type : Option Schema.NamedType}
    (ht : ∀ t ∈ type, t.body.HasNames) : (leafShape options type).Fits := by
  have hany : (Shape.leaf "any").Fits := .leaf (by decide)
  unfold leafShape
  split
  case h_1 => exact hany
  case h_2 t =>
    have ht := ht t rfl
    split
    case h_1 values hb =>
      rw [hb] at ht
      refine .leaf ?_
      rw [String.toList_intercalate]
      refine isQuiet_intercalate (by decide) <| List.forall_mem_map.mpr ?_
      refine List.forall_mem_append.mpr ⟨List.forall_mem_map.mpr fun value hv => ?_, ?_⟩
      · exact isQuiet_enumValue <| ht value <| (sortTexts_perm values).mem_iff.mp hv
      · cases options.noFutureProofEnums <;> decide
    case h_2 => exact .leaf (isQuiet_scalar ho t.name)
    case h_3 => exact hany

theorem body_of_type? (hs : s.HasNames) : ∀ t ∈ s.type? name, t.body.HasNames :=
  fun t ht => hs t (List.mem_of_find?_eq_some ht)

theorem fits_inputShape (hs : s.HasNames) (ho : HasPlainScalars options) (fuel : Nat)
    (seen : List String) (name : String) : (inputShape s options fuel seen name).Fits := by
  have hany : (Shape.leaf "any").Fits := .leaf (by decide)
  induction fuel generalizing seen name
  case zero => exact hany
  case succ fuel hi =>
    unfold inputShape
    split
    case h_1 fields ht =>
      split
      case isTrue => exact hany
      case isFalse =>
        have hf := body_of_type? hs _ ht
        refine .object ?_ ?_
        · exact List.forall_mem_map.mpr hf
        · exact List.forall_mem_map.mpr fun f _ => fits_wrapped (hi _ _) _
    case h_2 => exact fits_leafShape ho (body_of_type? hs)

structure Members.Fits (m : Members) : Prop where
  responses : ∀ r ∈ m.responses, IsName r.key ∧ r.shape.Fits
  spreads : ∀ name ∈ m.spreads, IsName name

theorem isQuiet_reference (h : IsName name) : isQuiet (name ++ "$ref").toList := by
  simpa using isQuiet_append (isQuiet_name h) (by decide)

theorem Members.Fits.named {m : Members} (h : m.Fits) : (Shape.object m.named).Fits := by
  refine .object (List.forall_mem_append.mpr ⟨?_, ?_⟩) (List.forall_mem_append.mpr ⟨?_, ?_⟩)
  · exact List.forall_mem_map.mpr fun r hr => (h.responses r hr).left
  · split
    case isTrue  => simp
    case isFalse => exact List.forall_mem_singleton.mpr (by decide : IsName "fragmentRefs")
  · exact List.forall_mem_map.mpr fun r hr => (h.responses r hr).right
  · split
    case isTrue => simp
    case isFalse =>
      refine List.forall_mem_singleton.mpr <| .leaf ?_
      rw [String.toList_intercalate]
      refine isQuiet_intercalate (by decide) <| List.forall_mem_map.mpr ?_
      exact List.forall_mem_map.mpr fun name hn => isQuiet_reference (h.spreads name hn)

theorem Members.Fits.withResponse {m : Members} {r : Response} (h : m.Fits) (hk : IsName r.key)
    (hr : r.shape.Fits) : (m.withResponse r).Fits := by
  unfold Members.withResponse
  split
  case isTrue  => exact h
  case isFalse =>
    refine ⟨List.forall_mem_append.mpr ⟨h.responses, ?_⟩, h.spreads⟩
    exact List.forall_mem_singleton.mpr ⟨hk, hr⟩

theorem Members.fits_empty : Members.empty.Fits :=
  ⟨nofun, nofun⟩

mutual

theorem fits_addSelection (hs : s.HasNames) (ho : HasPlainScalars options) :
    (selection : Selection) → selection.HasNames → ∀ parent isOptional m, m.Fits →
      (addSelection s options parent isOptional m selection).Fits
  | .field renamed name _ _ inner, .field hr hn hs', parent, isOptional, m, hm => by
    have hkey : IsName (renamed.getD name) := by
      cases renamed
      case none   => exact hn
      case some k => exact hr k rfl
    have inner := fits_addSelections hs ho inner hs'
    unfold addSelection
    refine hm.withResponse hkey ?_
    split
    case isTrue => exact .leaf (by decide)
    case isFalse =>
      split
      case h_1 => exact .leaf (by decide)
      case h_2 =>
        refine fits_wrapped ?_ _
        split
        case isTrue  => exact fits_leafShape ho (body_of_type? hs)
        case isFalse => exact (inner _ false _ Members.fits_empty).named
  | .inlineFragment condition _ inner, .inlineFragment hn, parent, isOptional, m, hm =>
    fits_addSelections hs ho inner hn _ _ m hm
  | .spread name _, .spread hn, parent, isOptional, m, hm =>
    ⟨hm.responses, List.forall_mem_append.mpr ⟨hm.spreads, List.forall_mem_singleton.mpr hn⟩⟩

theorem fits_addSelections (hs : s.HasNames) (ho : HasPlainScalars options) :
    (selections : List Selection) → (∀ s ∈ selections, s.HasNames) → ∀ parent isOptional m,
      m.Fits → (addSelections s options parent isOptional m selections).Fits
  | [], _, _, _, _, hm => hm
  | selection :: rest, hn, parent, isOptional, m, hm =>
    fits_addSelections hs ho rest (fun s hm => hn s (.tail _ hm)) parent isOptional _ <|
      fits_addSelection hs ho selection (hn _ (.head _)) parent isOptional m hm

end

theorem fits_object_append {members : List (MemberName × Shape)} {m : MemberName × Shape}
    (h : (Shape.object members).Fits) (hn : IsName m.1.key) (hm : m.2.Fits) :
    (Shape.object (members ++ [m])).Fits := by
  cases h
  case object hk hs =>
    exact .object (List.forall_mem_append.mpr ⟨hk, List.forall_mem_singleton.mpr hn⟩)
      (List.forall_mem_append.mpr ⟨hs, List.forall_mem_singleton.mpr hm⟩)

theorem fits_membersOf (hs : s.HasNames) (ho : HasPlainScalars options)
    (hn : ∀ s ∈ selections, s.HasNames) (parent : Option Schema.NamedType) :
    (Shape.object (membersOf s options parent selections)).Fits :=
  (fits_addSelections hs ho selections hn parent false _ Members.fits_empty).named

theorem fits_variables (hs : s.HasNames) (ho : HasPlainScalars options)
    {vs : List Graphql.VariableDefinition} (hn : ∀ v ∈ vs, IsName v.name)
    {members : List (MemberName × Shape)} (h : vs.mapM (variableMember s options) = .ok members) :
    (Shape.object members).Fits := by
  have hm (m : MemberName × Shape) (hm : m ∈ members) : IsName m.1.key ∧ m.2.Fits := by
    have ⟨v, hv, hm⟩ := mem_of_mapM h hm
    unfold variableMember at hm
    split at hm <;> cases hm
    exact ⟨hn v hv, fits_wrapped (fits_inputShape hs ho _ _ _) _⟩
  exact .object (fun m h => (hm m h).left) fun m h => (hm m h).right

-- Declarations

theorem declaration_eq {shape : Shape} :
    declaration name shape = "export type " ++ name ++ " = " ++ shape.print 0 ++ ";" :=
  rfl

theorem nests_declaration (hn : IsName name) {shape : Shape} (hf : shape.Fits)
    (h : Nests [] rest) :
    Nests [] ((declaration name shape).toList ++ rest) ∧
      IsIndented [] ((declaration name shape).toList ++ rest) := by
  simp only [declaration_eq, String.toList_append, List.append_assoc]
  constructor
  · refine .quiet (by decide) <| .quiet (isQuiet_name hn) <| .quiet (by decide) ?_
    exact passes_print hf 0 [] _ rfl (.quiet (by decide) h)
  · exact isIndented_line (c := 'e') (by simp) (by decide) (by decide)

-- The last declaration of an operation, which refers to the two before it.
def ownShape (name : String) : Shape :=
  .object [(.input "variables" false, .leaf s!"{name}Variables"),
    (.input "response" false, .leaf s!"{name}Response")]

theorem declaration_ownShape : declaration name (ownShape name) =
    s!"export type {name} = \x7b|\n  variables: {name}Variables,\n" ++
      s!"  response: {name}Response,\n|\x7d;" := by
  apply String.toList_injective
  simp [declaration_eq, ownShape, objectText, MemberName.text, toList_pushn, toString]

theorem operationTypes_nests (hs : s.HasNames) (ho : HasPlainScalars options) {o : Operation}
    (hn : o.HasNames) (hname : IsName name) {text : String}
    (h : operationTypes s options name o = .ok text) :
    Nests [] text.toList ∧ IsIndented [] text.toList := by
  have ⟨members, hm, h⟩ := bind_ok.mp h
  have hvariables : IsName (name ++ "Variables") := hname.append (by decide)
  have hresponse : IsName (name ++ "Response") := hname.append (by decide)
  have hown : (ownShape name).Fits := by
    refine .object (List.forall_mem_cons.mpr ⟨?_, List.forall_mem_singleton.mpr ?_⟩)
      (List.forall_mem_cons.mpr ⟨?_, List.forall_mem_singleton.mpr ?_⟩)
    · exact (by decide : IsName "variables")
    · exact (by decide : IsName "response")
    · exact .leaf (isQuiet_name hvariables)
    · exact .leaf (isQuiet_name hresponse)
  have he : text = declaration (name ++ "Variables") (.object members) ++ "\n" ++
      declaration (name ++ "Response") (responseShape s options o) ++ "\n" ++
        declaration name (ownShape name) := by
    have hassoc (a b c : String) : a ++ (b ++ c) = a ++ b ++ c := String.append_assoc.symm
    rw [declaration_ownShape, hassoc]
    exact (Except.ok.inj h).symm
  have ⟨hd₃, hi₃⟩ := nests_declaration hname hown .done
  have hshape : (responseShape s options o).Fits := fits_membersOf hs ho hn.selections _
  have ⟨hd₂, hi₂⟩ := nests_declaration hresponse hshape (.newline hi₃ hd₃)
  have h₁ := nests_declaration hvariables (fits_variables hs ho hn.declared hm) (.newline hi₂ hd₂)
  rw [he]
  simpa using h₁

theorem fragmentTypes_nests (hs : s.HasNames) (ho : HasPlainScalars options) {f : Fragment}
    (hn : f.HasNames) : Nests [] (fragmentTypes s options f).toList ∧
      IsIndented [] (fragmentTypes s options f).toList := by
  have hf : (fragmentShape s options f).Fits :=
    fits_object_append (fits_membersOf hs ho hn.selections _) (by decide : IsName "refType")
      (.leaf (isQuiet_reference hn.name))
  have ⟨hd, hi⟩ := nests_declaration hn.name hf .done
  rw [List.append_nil] at hd hi
  have he : fragmentTypes s options f =
      "import type \x7b FragmentReference \x7d from 'relay-runtime';\n" ++
        ("declare export opaque type " ++ f.name ++ "$ref: FragmentReference;\n") ++
          declaration f.name (fragmentShape s options f) := rfl
  have himport : "import type \x7b FragmentReference \x7d from 'relay-runtime';\n".toList =
      "import type \x7b FragmentReference \x7d from 'relay-runtime';".toList ++ ['\n'] := by simp
  have hreference : "$ref: FragmentReference;\n".toList =
      "$ref: FragmentReference;".toList ++ ['\n'] := by simp
  rw [he]
  simp only [String.toList_append, himport, hreference, List.append_assoc, List.cons_append,
    List.nil_append]
  constructor
  · refine .quiet (by decide) <| .newline (isIndented_line (c := 'd') (by simp) (by decide)
      (by decide)) ?_
    exact .quiet (by decide) <| .quiet (isQuiet_name hn.name) <| .quiet (by decide) <|
      .newline hi hd
  · exact isIndented_line (c := 'i') (by simp) (by decide) (by decide)

-- The types of operations and fragments are well nested: the types of variables and selections,
-- to any depth, with all names of documents and schemas and all plain texts for scalars. All that
-- is loaded or parsed has such names.
theorem types_wellNested :
    (∀ s options definition text, Schema.HasNames s → Definition.HasNames definition →
      HasPlainScalars options → types s options definition = .ok text →
        WellNested text.toList) ∧
      (∀ s : Schema, s.IsRead → s.HasNames) ∧
        ∀ definition : Definition, definition.IsParsed → definition.HasNames := by
  refine ⟨?_, fun s h => h.hasNames, fun definition h => h.hasNames⟩
  intro s options definition text hs hd ho h
  cases definition
  case operation o =>
    simp only [types] at h
    split at h
    case h_1 name hn =>
      have ⟨hnests, hi⟩ := operationTypes_nests hs ho hd (hd.name name hn) h
      exact hnests.wellNested hi
    case h_2 => cases h
  case fragment f =>
    cases h
    have ⟨hnests, hi⟩ := fragmentTypes_nests hs ho hd
    exact hnests.wellNested hi
  all_goals cases h

-- An input type inside itself, a scalar with a text of its own, selections below selections.
def searchTree : Tree :=
  Tree.empty.set ["schema.graphql"] <| .file <| Utf8.encode
    "input By \x7b not: By \x7d scalar Date type Query \x7b in(by: By): [Query!] on: Date \x7d"

def searchText : String :=
  "query Search($by: By!) \x7b in(by: $by) \x7b at: on ...Rest \x7d \x7d"

def searchOptions : TypeOptions where
  customScalars := [("Date", "IsoDate")]
  noFutureProofEnums := false

theorem types_wellNested_search : ∃ s document definition text,
    Schema.load searchTree ⟨"/", ["schema.graphql"]⟩ = .ok s ∧
      Graphql.parse searchText = .ok document ∧ definition ∈ document ∧
        types s searchOptions definition = .ok text ∧ WellNested text.toList := by
  have h : ((Schema.load searchTree ⟨"/", ["schema.graphql"]⟩).toOption.bind fun s =>
      (Graphql.parse searchText).toOption.bind fun document => document.head?.bind fun definition =>
        (types s searchOptions definition).toOption).isSome := by decide +kernel
  have ⟨text, h⟩ := Option.isSome_iff_exists.mp h
  simp only [Option.bind_eq_some_iff] at h
  obtain ⟨s, hs, document, hp, definition, hm, ht⟩ := h
  have hs := ok_of_toOption hs
  have hp := ok_of_toOption hp
  have ht := ok_of_toOption ht
  have hm := List.mem_of_head? hm
  have ⟨hnested, hread, hparsed⟩ := types_wellNested
  exact ⟨s, document, definition, text, hs, hp, hm, ht,
    hnested s _ definition text (hread s (.loaded hs)) (hparsed definition ⟨_, _, hp, hm⟩)
      (by simp [HasPlainScalars, searchOptions]) ht⟩

end GraphqlArtifacts.Flow
