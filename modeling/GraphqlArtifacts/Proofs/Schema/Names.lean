import GraphqlArtifacts.Proofs.Except
import GraphqlArtifacts.Proofs.Graphql.Names
import GraphqlArtifacts.Schema.Load

-- Schemas that are built from parsed documents have names of the syntax of documents in them.

namespace GraphqlArtifacts

open Graphql (Document Definition TypeDefinition TypeBody IsName)

variable {α : Type} {nameOf : α → String} {a b : α} {items more : List α}

theorem mem_putNamed (h : a ∈ putNamed nameOf b items) : a = b ∨ a ∈ items := by
  induction items
  case nil => simpa [putNamed] using h
  case cons head tail hi => grind [putNamed]

theorem mem_putAllNamed (h : a ∈ putAllNamed nameOf items more) : a ∈ items ∨ a ∈ more := by
  induction more generalizing items
  case nil => exact .inl h
  case cons b more hi =>
    obtain h | h := hi h
    case inl =>
      obtain rfl | h := mem_putNamed h
      · exact .inr (.head _)
      · exact .inl h
    case inr => exact .inr (.tail _ h)

namespace Schema

-- The names of the values of enums and of the fields of input types.
def Body.HasNames : Body → Prop
  | .enum values  => ∀ value ∈ values, IsName value
  | .input fields => ∀ f ∈ fields, IsName f.name
  | _             => True

instance : (body : Body) → Decidable body.HasNames
  | .enum _  => inferInstanceAs (Decidable (∀ _ ∈ _, _))
  | .input _ => inferInstanceAs (Decidable (∀ _ ∈ _, _))
  | .scalar | .object .. | .interface .. | .union _ => .isTrue trivial

def HasNames (s : Schema) : Prop :=
  ∀ t ∈ s.types, t.body.HasNames

instance (s : Schema) : Decidable s.HasNames :=
  inferInstanceAs (Decidable (∀ _ ∈ _, _))

variable {known : String → Bool} {d : Document} {s s' : Schema} {t : NamedType} {draft : Draft}

theorem mem_addedBy {added : TypeDefinition → Except SchemaFault (List α)}
    {ts : List TypeDefinition} {l : List α} (h : addedBy added ts = .ok l) (ha : a ∈ l) :
    ∃ t ∈ ts, ∃ l', added t = .ok l' ∧ a ∈ l' := by
  have ⟨ls, hm, hp⟩ := bind_ok.mp h
  cases hp
  have ⟨l', hl, ha⟩ := List.mem_flatten.mp ha
  have ⟨t, ht, he⟩ := mem_of_mapM hm hl
  exact ⟨t, ht, l', he, ha⟩

theorem addedValues_names {t : TypeDefinition} (ht : t.body.HasNames) {values : List String}
    (h : addedValues t = .ok values) : ∀ value ∈ values, IsName value := by
  rcases t with ⟨_, _, _, body⟩
  cases body
  case enum definitions =>
    cases h
    exact List.forall_mem_map.mpr ht
  all_goals cases h

theorem addedInputs_names {t : TypeDefinition} (ht : t.body.HasNames) {inputs : List Input}
    (h : addedInputs known t = .ok inputs) : ∀ f ∈ inputs, IsName f.name := by
  intro f hf
  rcases t with ⟨_, _, _, body⟩
  cases body
  case input definitions =>
    have ⟨definition, hm, hi⟩ := mem_of_mapM h hf
    have ⟨_, _, he⟩ := bind_ok.mp hi
    cases he
    exact ht definition hm
  case object | interface =>
    have ⟨_, _, hi⟩ := mem_of_mapM h hf
    have ⟨_, _, he⟩ := bind_ok.mp hi
    cases he
  all_goals cases h

structure Draft.HasNames (draft : Draft) : Prop where
  start : draft.start.body.HasNames
  additions : ∀ t ∈ draft.additions, t.body.HasNames

theorem Draft.HasNames.enumValues (h : draft.HasNames) {values : List String}
    (hv : draft.enumValues = .ok values) : ∀ value ∈ values, IsName value := by
  have hs := h.start
  unfold Draft.enumValues at hv
  split at hv
  case h_1 values hb =>
    have ⟨more, hm, he⟩ := bind_ok.mp hv
    cases he
    intro value hvalue
    obtain hvalue | hvalue := mem_putAllNamed hvalue
    · rw [hb] at hs
      exact hs value hvalue
    · have ⟨t, ht, _, ha, hvalue⟩ := mem_addedBy hm hvalue
      exact addedValues_names (h.additions t ht) ha value hvalue
  case h_2 =>
    cases hv
    simp

theorem Draft.HasNames.finish (h : draft.HasNames) (hf : draft.finish known = .ok t) :
    t.body.HasNames := by
  have hs := h.start
  unfold Draft.finish at hf
  cases hb : draft.start.body <;> simp only [hb] at hf hs
  case scalar =>
    cases hf
    rwa [hb]
  case object | interface =>
    have ⟨_, _, hf⟩ := bind_ok.mp hf
    cases hf
    trivial
  case union =>
    have ⟨_, _, hf⟩ := bind_ok.mp hf
    cases hf
    trivial
  case enum =>
    have ⟨values, hv, hf⟩ := bind_ok.mp hf
    cases hf
    exact h.enumValues hv
  case input fields =>
    have ⟨more, hm, hf⟩ := bind_ok.mp hf
    cases hf
    intro f hf
    obtain hf | hf := mem_putAllNamed hf
    · exact hs f hf
    · have ⟨t, ht, _, ha, hf⟩ := mem_addedBy (mapError_ok.mp hm) hf
      exact addedInputs_names (h.additions t ht) ha f hf

theorem standardTypes_names : ∀ t ∈ standardTypes, t.body.HasNames := by
  decide

theorem NamedType.checked_names {types : List NamedType} (h : t.body.HasNames) :
    (t.checked types).body.HasNames := by
  unfold NamedType.checked
  split <;> simp_all [Body.HasNames, Input.checked]

-- The drafts of a schema's types and of the definitions of a document.
theorem HasNames.drafts (h : s.HasNames) {own extensions : List TypeDefinition}
    (ho : ∀ t ∈ own, t.body.HasNames) (he : ∀ t ∈ extensions, t.body.HasNames)
    (hd : draft ∈ putAllNamed Draft.name (s.types.map (Draft.ofType extensions))
      (own.map (Draft.ofDefinition extensions))) : draft.HasNames := by
  obtain hd | hd := mem_putAllNamed hd
  case inl =>
    have ⟨t, ht, hdraft⟩ := List.mem_map.mp hd
    cases hdraft
    refine ⟨h t ht, fun t ht => ?_⟩
    unfold Draft.ofType at ht
    split at ht
    case isTrue  => cases ht
    case isFalse => exact he t (List.mem_of_mem_filter ht)
  case inr =>
    have ⟨t, ht, hdraft⟩ := List.mem_map.mp hd
    cases hdraft
    constructor
    case start =>
      unfold Draft.ofDefinition emptyBody
      split <;> simp [Body.HasNames]
    case additions =>
      exact List.forall_mem_cons.mpr ⟨ho t ht, fun t ht => he t (List.mem_of_mem_filter ht)⟩

theorem HasNames.extend (h : s.HasNames) (hd : ∀ definition ∈ d, definition.HasNames)
    (he : s.extend d = .ok s') : s'.HasNames := by
  have hextensions (t : TypeDefinition) (ht : t ∈ d.filterMap typeExtension?) :
      t.body.HasNames := by
    have ⟨definition, hm, he⟩ := List.mem_filterMap.mp ht
    cases definition <;> cases he
    exact hd _ hm
  have hown (t : TypeDefinition) (ht : t ∈ d.filterMap typeDefinition?) : t.body.HasNames := by
    have ⟨definition, hm, he⟩ := List.mem_filterMap.mp ht
    cases definition <;> cases he
    exact hd _ hm
  have ⟨_, _, he⟩ := bind_ok.mp he
  have ⟨rooted, _, he⟩ := bind_ok.mp he
  have ⟨directives, _, he⟩ := bind_ok.mp he
  have ⟨types, hm, he⟩ := bind_ok.mp he
  cases he
  intro t ht
  obtain ht | ht := mem_putAllNamed ht
  case inl =>
    have ⟨t, ht, he⟩ := List.mem_map.mp ht
    have ⟨draft, hdraft, hf⟩ := mem_of_mapM hm ht
    rw [← he]
    refine NamedType.checked_names <| (h.drafts (fun t ht => ?_) hextensions hdraft).finish hf
    change t ∈ ((d.filterMap typeDefinition?).partition (isStandard ·.name)).2 at ht
    rw [List.partition_eq_filter_filter] at ht
    exact hown t (List.mem_of_mem_filter ht)
  case inr =>
    obtain ht | ht := List.mem_append.mp ht
    case inl => exact standardTypes_names t (List.mem_of_mem_filter ht)
    case inr =>
      unfold neededStandardTypes at ht
      exact standardTypes_names t (List.mem_of_mem_filter ht)

theorem withUsualRoots_types (s : Schema) : s.withUsualRoots.types = s.types := by
  refine List.foldlRecOn (motive := fun s' : Schema => s'.types = s.types) _ _ rfl ?_
  intro s' h ⟨name, kind⟩ _
  rw [← h]
  simp only
  split
  case isTrue  => cases kind <;> rfl
  case isFalse => rfl

theorem build_hasNames (hd : ∀ definition ∈ d, definition.HasNames) (h : build d = .ok s) :
    s.HasNames := by
  have ⟨s', he, h⟩ := bind_ok.mp h
  cases h
  have hn : s'.HasNames := HasNames.extend (s := Schema.empty) (by simp [HasNames, empty]) hd he
  split
  case isTrue  => exact hn
  case isFalse => exact s'.withUsualRoots_types ▸ hn

theorem ofText_hasNames {text : String} (h : ofText text = .ok s) : s.HasNames := by
  have ⟨_, _, h⟩ := bind_ok.mp h
  split at h
  case h_1 => cases h
  case h_2 =>
    have ⟨d, hd, h⟩ := bind_ok.mp h
    exact build_hasNames (Graphql.parse_hasNames <| mapError_ok.mp hd) (mapError_ok.mp h)

theorem load_hasNames {tree : Tree} {path : Path} (h : load tree path = .ok s) : s.HasNames := by
  have ⟨text, _, h⟩ := bind_ok.mp h
  split at h
  case isTrue =>
    have ⟨_, _, h⟩ := bind_ok.mp h
    exact ofText_hasNames h
  case isFalse => exact ofText_hasNames h

-- The schemas that are loaded, and those with what parsed documents define and extend.
inductive IsRead : Schema → Prop
  | loaded {tree : Tree} {path : Path} {s : Schema} (h : load tree path = .ok s) : IsRead s
  | extended {s s' : Schema} {d : Document} (hs : IsRead s)
      (hd : ∀ definition ∈ d, definition.IsParsed) (h : s.extend d = .ok s') : IsRead s'

theorem IsRead.hasNames (h : s.IsRead) : s.HasNames := by
  induction h
  case loaded h            => exact load_hasNames h
  case extended hd he hi => exact hi.extend (fun definition hm => (hd definition hm).hasNames) he

end Schema

end GraphqlArtifacts
