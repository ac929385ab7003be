import GraphqlArtifacts.Proofs.Artifacts.Locality
import GraphqlArtifacts.Proofs.Documents.Following

namespace GraphqlArtifacts

open Graphql
open Relation (ReflTransGen)

variable {fragments : String → Option Fragment} {selections : List Selection}
  {reached : List Fragment} {d d' : Document} {o : Operation} {name : String}

namespace Graphql

-- The fragments that names stand for which can be followed from selections, in the order of names.
structure Closure (fragments : String → Option Fragment) (selections : List Selection)
    (reached : List Fragment) : Prop where
  ordered : reached.Pairwise fun f g => textBefore f.name g.name
  mem_iff : ∀ f, f ∈ reached ↔ ∃ name, Follows fragments selections name ∧ fragments name = some f

namespace Closure

variable {s : Following} (h : Closure fragments selections reached)
  (hname : ∀ name f, fragments name = some f → f.name = name)

include h

theorem mem_names_iff (hname : ∀ name f, fragments name = some f → f.name = name) :
    name ∈ reached.map (·.name) ↔ Follows fragments selections name ∧ (fragments name).isSome := by
  simp only [List.mem_map, h.mem_iff, Option.isSome_iff_exists]
  constructor
  case mp =>
    rintro ⟨f, ⟨name, hr, hf⟩, rfl⟩
    exact hname name f hf ▸ ⟨hr, f, hf⟩
  case mpr => exact fun ⟨hr, f, hf⟩ => ⟨f, ⟨name, hr, hf⟩, hname name f hf⟩

include hname

-- What is spread by the selections or in one of the fragments is itself among the fragments.
theorem defined (hall : ∀ name, Follows fragments selections name → (fragments name).isSome)
    {inner : List Selection} (hi : inner ∈ selections :: reached.map (·.selections))
    (hn : IsSpread name inner) : ∃ f ∈ reached, f.name = name := by
  have hr : Follows fragments selections name := by
    cases hi
    case head => exact .here hn
    case tail hi =>
      have ⟨f, hf, he⟩ := List.mem_map.mp hi
      have ⟨_, hr, hf⟩ := (h.mem_iff f).mp hf
      exact hr.through hf <| he ▸ hn
  exact List.mem_map.mp <| (h.mem_names_iff hname).mpr ⟨hr, hall name hr⟩

-- However names are followed one after the other, the fragments are the same in the end.
theorem eq_of_followed (hs : Following.Sound fragments selections s) (hp : s.pending = []) :
    (sortTexts s.followed).filterMap fragments = reached := by
  have hbefore : (reached.map (·.name)).Pairwise fun a b => textBefore a b :=
    List.pairwise_map.mpr h.ordered
  have hnodup : (reached.map (·.name)).Nodup := by
    apply hbefore.imp
    rintro a _ hab rfl
    exact textBefore_isOrder.asymm hab hab
  have hperm : (reached.map (·.name)).Perm (sortTexts s.followed) := by
    refine .trans ?_ (sortTexts_perm _).symm
    refine (List.perm_ext_iff_of_nodup hnodup hs.nodup).mpr fun name => ?_
    rw [h.mem_names_iff hname, hs.mem_followed_iff hp]
  have hnames := textBefore_isOrder.eq_of_pairwise
    (hbefore.imp fun hab => by simpa using textBefore_isOrder.asymm hab) (sortTexts_inOrder _) hperm
  have hself : ∀ f ∈ reached, (fragments ∘ (·.name)) f = some f := by
    intro f hf
    have ⟨name, _, hf⟩ := (h.mem_iff f).mp hf
    obtain rfl := hname name f hf
    exact hf
  rw [← hnames, List.filterMap_map, List.filterMap_congr hself, List.filterMap_some]

end Closure

theorem mem_reachedFragments_iff_follows {f : Fragment} : f ∈ reachedFragments d selections ↔
    ∃ name, Follows (fragment? d) selections name ∧ fragment? d name = some f := by
  simp only [mem_reachedFragments_iff, reaches_iff_follows]

theorem closure_reachedFragments : Closure (fragment? d) selections
    ((reachedFragments d selections).mergeSort fun f g => inOrder f.name g.name) where
  ordered := by
    have hp := List.mergeSort_perm (reachedFragments d selections) fun f g => inOrder f.name g.name
    have hn := (hp.map (·.name)).nodup_iff.mpr nodup_reachedFragments
    have hs := textBefore_isOrder.pairwise_sorted Fragment.name (reachedFragments d selections)
    exact List.pairwise_map.mp <| textBefore_isOrder.pairwise_before (List.pairwise_map.mpr hs) hn
  mem_iff f := List.mem_mergeSort.trans mem_reachedFragments_iff_follows

end Graphql

namespace Artifact

open Following (Turn)

-- The text of an operation has the fragments that can be followed from it in some map, in the order
-- of their names, and defines all that it spreads when the map does. Following names one after the
-- other, in any order, comes to an end, and then to these fragments.
theorem operationText_followed {names : Finset String}
    (h : ∀ name f, fragments name = some f → name ∈ names ∧ f.name = name) (o : Operation) :
    ∃ reached, Closure fragments o.selections reached ∧
      ((∀ name, Follows fragments o.selections name → (fragments name).isSome) →
        ∀ inner ∈ o.selections :: reached.map (·.selections), ∀ name, IsSpread name inner →
          ∃ f ∈ reached, f.name = name) ∧
      (∃ d, fragment? d = fragments) ∧
      (∀ d, fragment? d = fragments →
        operationText d o = "\n\n".intercalate (o.print :: reached.map Fragment.print)) ∧
      WellFounded (fun s' s => Turn fragments s s') ∧
      ∀ spreads, (∀ name, name ∈ spreads ↔ IsSpread name o.selections) →
        ∀ s, ReflTransGen (Turn fragments) ⟨[], spreads⟩ s →
          (s.pending ≠ [] → ∃ s', Turn fragments s s') ∧
          (s.pending = [] → (sortTexts s.followed).filterMap fragments = reached) := by
  have hname := fun name f hf => (h name f hf).right
  have ⟨d, hd⟩ := exists_documents h
  have hc := @closure_reachedFragments o.selections d
  rw [hd] at hc
  refine ⟨_, hc, fun hall inner hi name hn => hc.defined hname hall hi hn, ⟨d, hd⟩, ?text,
    Following.wellFounded_turn fun name f hf => (h name f hf).left, ?turns⟩
  case text =>
    intro d' hd'
    have hsame : operationText d' o = operationText d o := operationText_congr fun f => by
      rw [mem_reachedFragments_iff_follows, mem_reachedFragments_iff_follows, hd, hd']
    exact hsame
  case turns =>
    intro spreads hspreads s ht
    have hs : Following.Sound fragments o.selections s := .turns ht <| .start_of hspreads rfl
    exact ⟨Following.exists_turn, hc.eq_of_followed hname hs⟩

-- Two fragments that spread each other, one of which also spreads a name that stands for nothing.

def leftFragment : Fragment :=
  ⟨"Left", "User", [], [.inlineFragment none [] [.spread "Right" []]]⟩

def rightFragment : Fragment :=
  ⟨"Right", "User", [], [.spread "Left" [], .spread "Nowhere" []]⟩

def ringQuery : Operation :=
  ⟨.query, some "Ring", [], [], [.field none "viewer" [] [] [.spread "Right" []]]⟩

def ring : Document :=
  [.fragment rightFragment, .operation ringQuery, .fragment leftFragment]

theorem operationText_ring :
    (∀ name f, fragment? ring name = some f →
      name ∈ ({"Left", "Right"} : Finset String) ∧ f.name = name) ∧
    operationText ring ringQuery =
      "\n\n".intercalate [ringQuery.print, leftFragment.print, rightFragment.print] := by
  have h (name : String) (f : Fragment) (hf : fragment? ring name = some f) :
      name ∈ ({"Left", "Right"} : Finset String) ∧ f.name = name := by
    obtain ⟨hm, rfl⟩ := mem_of_fragment? hf
    simp only [ring, List.mem_cons, List.not_mem_nil, or_false, Definition.fragment.injEq] at hm
    obtain rfl | hm | rfl := hm
    case inr.inl => cases hm
    all_goals exact ⟨by decide, rfl⟩
  have ⟨reached, _, _, _, htext, _, hturns⟩ := operationText_followed h ringQuery
  have hrun : ReflTransGen (Turn (fragment? ring)) ⟨[], ["Right"]⟩ ⟨["Left", "Right"], []⟩ :=
    .head (.follow (.refl _) List.not_mem_nil (f := rightFragment) rfl fun _ => mem_spreadsIn_iff) <|
    .head (.drop (.swap ..) <| .inr rfl) <|
    .head (.follow (.refl _) (by decide) (f := leftFragment) rfl fun _ => mem_spreadsIn_iff) <|
    .single <| .drop (.refl _) <| .inl <| by decide
  have hreached := (hturns _ (fun _ => mem_spreadsIn_iff) _ hrun).right rfl
  have hsorted : sortTexts ["Left", "Right"] = ["Left", "Right"] :=
    List.mergeSort_of_pairwise <| by decide
  rw [hsorted] at hreached
  subst hreached
  exact ⟨h, htext ring rfl⟩

end Artifact

end GraphqlArtifacts
