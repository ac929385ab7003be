import Mathlib.Data.Finset.Card
import Mathlib.Data.Prod.Lex
import Mathlib.Logic.Relation
import GraphqlArtifacts.Proofs.Text.Order
import GraphqlArtifacts.Proofs.Validation.Known

namespace GraphqlArtifacts.Graphql

open Relation (ReflTransGen)

variable {fragments : String → Option Fragment} {selections selections' : List Selection}
  {selection : Selection} {name : String} {f : Fragment}

-- A name is spread by selections themselves, or by those of a field or inline fragment.
inductive IsSpread (name : String) : List Selection → Prop
  | here {directives selections} (h : .spread name directives ∈ selections) :
    IsSpread name selections
  | field {renamed key arguments directives inner selections}
    (h : .field renamed key arguments directives inner ∈ selections) (hs : IsSpread name inner) :
    IsSpread name selections
  | inlineFragment {condition directives inner selections}
    (h : .inlineFragment condition directives inner ∈ selections) (hs : IsSpread name inner) :
    IsSpread name selections

theorem IsSpread.mono (h : selections ⊆ selections') (hs : IsSpread name selections) :
    IsSpread name selections' := by
  cases hs
  case here hm              => exact .here <| h hm
  case field hs hm          => exact .field (h hm) hs
  case inlineFragment hs hm => exact .inlineFragment (h hm) hs

mutual

theorem isSpread_of_mem : (selection : Selection) → name ∈ joinSpreads selection.spreads →
    IsSpread name [selection]
  | .field _ _ _ _ inner, h => by
    have h : name ∈ joinSpreads (splitSpreads inner) := by
      simpa [Selection.spreads, joinSpreads] using h
    exact .field (List.mem_singleton_self _) <| isSpread_of_mem_split inner h
  | .inlineFragment _ _ inner, h => by
    have h : name ∈ joinSpreads (splitSpreads inner) := by
      simpa [Selection.spreads, joinSpreads] using h
    exact .inlineFragment (List.mem_singleton_self _) <| isSpread_of_mem_split inner h
  | .spread named _, h => by
    obtain rfl : name = named := by simpa [Selection.spreads, joinSpreads] using h
    exact .here <| List.mem_singleton_self _

theorem isSpread_of_mem_split : (selections : List Selection) →
    name ∈ joinSpreads (splitSpreads selections) → IsSpread name selections
  | [], h => by simp [splitSpreads, joinSpreads] at h
  | selection :: rest, h => by
    cases mem_joinSpreads_cons.mp h
    case inl h => exact (isSpread_of_mem selection h).mono <| by simp
    case inr h => exact (isSpread_of_mem_split rest h).mono <| by simp

end

theorem mem_spreadsIn_of_mem (hm : selection ∈ selections)
    (hn : name ∈ joinSpreads selection.spreads) : name ∈ spreadsIn selections := by
  induction hm
  case head      => exact mem_joinSpreads_cons.mpr <| .inl hn
  case tail _ hi => exact mem_joinSpreads_cons.mpr <| .inr hi

theorem mem_spreadsIn_iff : name ∈ spreadsIn selections ↔ IsSpread name selections := by
  constructor
  case mp => exact isSpread_of_mem_split selections
  case mpr =>
    intro h
    induction h
    case here hm => exact mem_spreadsIn_of_mem hm <| by simp [Selection.spreads, joinSpreads]
    case' field hm _ hi          => apply mem_spreadsIn_of_mem hm
    case' inlineFragment hm _ hi => apply mem_spreadsIn_of_mem hm
    all_goals simpa [Selection.spreads, joinSpreads, spreadsIn] using hi

-- A name that selections spread, or a fragment that such a name stands for.
inductive Follows (fragments : String → Option Fragment) (selections : List Selection) :
    String → Prop
  | here {name : String} (h : IsSpread name selections) : Follows fragments selections name
  | through {name name' : String} {f : Fragment} (hr : Follows fragments selections name)
      (hf : fragments name = some f) (h : IsSpread name' f.selections) :
      Follows fragments selections name'

theorem reaches_iff_follows {d : Document} :
    Reaches d selections name ↔ Follows (fragment? d) selections name := by
  constructor
  case mp =>
    intro h
    induction h
    case here hn          => exact .here <| mem_spreadsIn_iff.mp hn
    case through hf hn hi => exact hi.through hf <| mem_spreadsIn_iff.mp hn
  case mpr =>
    intro h
    induction h
    case here hn          => exact .here <| mem_spreadsIn_iff.mpr hn
    case through hf hn hi => exact hi.through hf <| mem_spreadsIn_iff.mpr hn

-- Documents that have each fragment of a map, and no other.
theorem exists_documents {names : Finset String}
    (h : ∀ name f, fragments name = some f → name ∈ names ∧ f.name = name) :
    ∃ d, fragment? d = fragments := by
  refine ⟨(names.toList.filterMap fragments).map .fragment, funext fun name => ?_⟩
  have hname {g : Fragment} (hm : g ∈ names.toList.filterMap fragments) :
      fragments g.name = some g := by
    obtain ⟨name, _, hg⟩ := List.mem_filterMap.mp hm
    exact (h name g hg).right ▸ hg
  have hall : ((names.toList.filterMap fragments).map Definition.fragment).filterMap
      Definition.fragment? = names.toList.filterMap fragments := by
    rw [List.filterMap_map]
    exact List.filterMap_some
  rw [fragment?, hall]
  cases hf : fragments name
  case none =>
    rw [List.find?_eq_none]
    intro g hg hn
    have := hname <| List.mem_reverse.mp hg
    simp_all
  case some f =>
    obtain ⟨hn, he⟩ := h name f hf
    have hm : f ∈ names.toList.filterMap fragments :=
      List.mem_filterMap.mpr ⟨name, Finset.mem_toList.mpr hn, hf⟩
    have hsome : ((names.toList.filterMap fragments).reverse.find? (·.name == name)).isSome :=
      List.find?_isSome.mpr ⟨f, List.mem_reverse.mpr hm, by simp [he]⟩
    obtain ⟨g, hg⟩ := Option.isSome_iff_exists.mp hsome
    have hg' := hname <| List.mem_reverse.mp <| List.mem_of_find?_eq_some hg
    have : g.name = name := by simpa using List.find?_some hg
    rw [hg, ← hf, ← hg', this]

-- Names that are followed one after the other.

structure Following where
  followed : List String
  pending : List String

namespace Following

variable {s s' : Following} {names : Finset String}

-- Any pending name is taken. One that was followed before, or that stands for nothing, is dropped.
-- Another is followed: the names that its fragment spreads are to be followed as well.
inductive Turn (fragments : String → Option Fragment) (s : Following) : Following → Prop
  | drop {name : String} {rest : List String} (hp : s.pending.Perm (name :: rest))
      (h : name ∈ s.followed ∨ fragments name = none) : Turn fragments s ⟨s.followed, rest⟩
  | follow {name : String} {rest more : List String} {f : Fragment}
      (hp : s.pending.Perm (name :: rest)) (hn : name ∉ s.followed) (hf : fragments name = some f)
      (hm : ∀ name', name' ∈ more ↔ IsSpread name' f.selections) :
      Turn fragments s ⟨name :: s.followed, rest ++ more⟩

-- A name is taken care of: followed, still to follow, or of no fragment.
def Covers (fragments : String → Option Fragment) (s : Following) (name : String) : Prop :=
  name ∈ s.followed ∨ name ∈ s.pending ∨ fragments name = none

structure Sound (fragments : String → Option Fragment) (selections : List Selection)
    (s : Following) : Prop where
  nodup : s.followed.Nodup
  followed : ∀ name ∈ s.followed, Follows fragments selections name ∧ (fragments name).isSome
  pending : ∀ name ∈ s.pending, Follows fragments selections name
  start : ∀ name, IsSpread name selections → s.Covers fragments name
  through : ∀ name ∈ s.followed, ∀ f, fragments name = some f →
    ∀ name', IsSpread name' f.selections → s.Covers fragments name'

theorem Covers.turn (ht : Turn fragments s s') (h : s.Covers fragments name) :
    s'.Covers fragments name := by
  cases ht
  case drop hp hd =>
    simp only [Covers, hp.mem_iff, List.mem_cons] at h ⊢
    grind
  case follow hp hn hf hm =>
    simp only [Covers, hp.mem_iff, List.mem_cons, List.mem_append] at h ⊢
    grind

theorem Sound.start_of (h : ∀ name, name ∈ s.pending ↔ IsSpread name selections)
    (hf : s.followed = []) : Sound fragments selections s where
  nodup := hf ▸ .nil
  followed := by simp [hf]
  pending := fun name hn => .here <| (h name).mp hn
  start := fun name hn => .inr <| .inl <| (h name).mpr hn
  through := by simp [hf]

theorem Sound.turn (ht : Turn fragments s s') (h : Sound fragments selections s) :
    Sound fragments selections s' := by
  have hstart := fun name hn => (h.start name hn).turn ht
  have hthrough := fun name hn f hf name' hs => (h.through name hn f hf name' hs).turn ht
  cases ht
  case drop hp _ =>
    exact ⟨h.nodup, h.followed, fun name hn => h.pending name <| hp.mem_iff.mpr <| .tail _ hn,
      hstart, hthrough⟩
  case follow name rest more f hp hn hf hm =>
    have hr := h.pending name <| hp.mem_iff.mpr <| .head _
    refine ⟨h.nodup.cons hn, ?followed, ?pending, hstart, ?through⟩
    case followed => exact List.forall_mem_cons.mpr ⟨⟨hr, by simp [hf]⟩, h.followed⟩
    case pending =>
      refine List.forall_mem_append.mpr ⟨?_, fun name' hs => hr.through hf <| (hm name').mp hs⟩
      exact fun name' hs => h.pending name' <| hp.mem_iff.mpr <| .tail _ hs
    case through =>
      refine List.forall_mem_cons.mpr ⟨fun g hg name' hs => ?_, hthrough⟩
      obtain rfl : f = g := Option.some_inj.mp <| hf ▸ hg
      exact .inr <| .inl <| List.mem_append_right _ <| (hm name').mpr hs

theorem Sound.turns (ht : ReflTransGen (Turn fragments) s s') (h : Sound fragments selections s) :
    Sound fragments selections s' := by
  induction ht
  case refl         => exact h
  case tail _ ht hi => exact hi.turn ht

-- When nothing is left to follow, all that can be followed was.
theorem Sound.mem_followed_iff (h : Sound fragments selections s) (hp : s.pending = []) :
    name ∈ s.followed ↔ Follows fragments selections name ∧ (fragments name).isSome := by
  have hcovered {name : String} (hc : s.Covers fragments name) (hs : (fragments name).isSome) :
      name ∈ s.followed := by
    simp only [Covers, hp, List.not_mem_nil, false_or] at hc
    exact hc.resolve_right fun hn => by simp [hn] at hs
  constructor
  case mp => exact h.followed name
  case mpr =>
    rintro ⟨hr, hs⟩
    induction hr
    case here hn          => exact hcovered (h.start _ hn) hs
    case through hf hn hi => exact hcovered (h.through _ (hi <| by simp [hf]) _ hf _ hn) hs

theorem exists_turn (h : s.pending ≠ []) : ∃ s', Turn fragments s s' := by
  have ⟨name, rest, hp⟩ := List.exists_cons_of_ne_nil h
  have hp : s.pending.Perm (name :: rest) := hp ▸ .refl _
  by_cases hn : name ∈ s.followed
  case pos => exact ⟨_, .drop hp <| .inl hn⟩
  case neg =>
    cases hf : fragments name
    case none   => exact ⟨_, .drop hp <| .inr hf⟩
    case some f => exact ⟨_, .follow hp hn hf fun _ => mem_spreadsIn_iff⟩

-- A turn leaves fewer names that could be followed, or as many of them and fewer pending ones.
theorem wellFounded_turn (h : ∀ name f, fragments name = some f → name ∈ names) :
    WellFounded fun s' s => Turn fragments s s' := by
  let size (s : Following) : ℕ × ℕ := ((names.filter (· ∉ s.followed)).card, s.pending.length)
  refine Subrelation.wf (fun {s' s} ht => ?_) <|
    InvImage.wf size <| (Prod.lex ⟨_, wellFounded_lt⟩ ⟨_, wellFounded_lt⟩).wf
  cases ht
  case drop hp _ =>
    apply Prod.Lex.right
    simp [hp.length_eq]
  case follow name _ _ f hp hn hf _ =>
    apply Prod.Lex.left
    refine Finset.card_lt_card <| (Finset.ssubset_iff_of_subset fun name' => ?_).mpr
      ⟨name, by simp [hn, h name f hf], by simp⟩
    simp +contextual

end Following

end GraphqlArtifacts.Graphql
