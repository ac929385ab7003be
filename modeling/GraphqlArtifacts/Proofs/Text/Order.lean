import Mathlib.Data.List.Nodup
import Mathlib.Data.List.Sort
import GraphqlArtifacts.Text.Order

namespace GraphqlArtifacts

variable {α β : Type} {before : α → α → Bool}

-- What makes a comparison one of a strict total order.
structure IsOrder (before : α → α → Bool) : Prop where
  asymm : ∀ {a b}, before a b → ¬ before b a
  between : ∀ {a c} b, before a c → before a b ∨ before b c
  total : ∀ {a b}, a ≠ b → before a b ∨ before b a

namespace IsOrder

theorem comap {f : β → α} (h : IsOrder before) (hf : ∀ {a b}, f a = f b → a = b) :
    IsOrder fun a b => before (f a) (f b) where
  asymm := h.asymm
  between b := h.between (f b)
  total hn := h.total fun he => hn <| hf he

-- Items that are sorted by a key are in its order.
theorem pairwise_sorted (h : IsOrder before) (key : β → α) (l : List β) :
    (l.mergeSort fun a b => !before (key b) (key a)).Pairwise fun a b => !before (key b) (key a) := by
  apply List.pairwise_mergeSort
  · intro a b c hab hbc
    simp only [Bool.not_eq_true'] at hab hbc ⊢
    cases hac : before (key c) (key a)
    case false => rfl
    case true  => simpa [hab, hbc] using h.between (key b) hac
  · intro a b
    cases hab : before (key a) (key b)
    case false => simp
    case true  => simpa using h.asymm hab

theorem pairwise_mergeSort (h : IsOrder before) (l : List α) :
    (l.mergeSort fun a b => !before b a).Pairwise fun a b => !before b a :=
  h.pairwise_sorted id l

-- Items with different keys are sorted alike, wherever they come from.
theorem mergeSort_congr (h : IsOrder before) {key : β → α} {l l' : List β}
    (hk : (l.map key).Nodup) (hp : l.Perm l') :
    (l.mergeSort fun a b => !before (key b) (key a)) =
      l'.mergeSort fun a b => !before (key b) (key a) := by
  have hs := List.mergeSort_perm l fun a b => !before (key b) (key a)
  have hs' := List.mergeSort_perm l' fun a b => !before (key b) (key a)
  refine (hs.trans <| hp.trans hs'.symm).eq_of_pairwise (fun a b ha hb hab hba => ?_)
    (h.pairwise_sorted key l) (h.pairwise_sorted key l')
  have hkey : key a = key b := by
    by_contra hn
    have := h.total hn
    simp_all
  exact List.inj_on_of_nodup_map hk (hs.mem_iff.mp ha) (hp.mem_iff.mpr <| hs'.mem_iff.mp hb) hkey

-- Two lists in order with the same items, each of them once, are the same.
theorem eq_of_pairwise (h : IsOrder before) {l l' : List α}
    (hs : l.Pairwise fun a b => !before b a) (hs' : l'.Pairwise fun a b => !before b a)
    (hp : l.Perm l') : l = l' := by
  refine hp.eq_of_pairwise (fun a b _ _ hab hba => ?_) hs hs'
  by_cases hn : a = b
  case pos => exact hn
  case neg =>
    have := h.total hn
    simp_all

-- Items in order, each of them once, come strictly before one another.
theorem pairwise_before (h : IsOrder before) {l : List α}
    (hs : l.Pairwise fun a b => !before b a) (hn : l.Nodup) : l.Pairwise fun a b => before a b := by
  refine hs.imp₂ (fun a b hab hne => ?_) hn
  exact (h.total hne).resolve_right <| by simpa using hab

variable [DecidableEq α]

theorem lex_asymm (h : IsOrder before) {as bs : List α} (hl : lexBefore before as bs) :
    ¬ lexBefore before bs as := by
  induction as generalizing bs
  case nil => cases bs <;> simp [lexBefore] at hl ⊢
  case cons a as hi =>
    cases bs
    case nil => simp [lexBefore] at hl
    case cons b bs =>
      by_cases he : a = b
      case pos =>
        simp only [lexBefore, he, if_true] at hl ⊢
        exact hi hl
      case neg =>
        simp only [lexBefore, he, Ne.symm he, if_false] at hl ⊢
        exact h.asymm hl

theorem lex_between (h : IsOrder before) {as cs : List α} (bs : List α)
    (hl : lexBefore before as cs) : lexBefore before as bs ∨ lexBefore before bs cs := by
  induction as generalizing bs cs
  case nil => cases bs <;> simp_all [lexBefore]
  case cons a as hi =>
    cases cs
    case nil => simp [lexBefore] at hl
    case cons c cs =>
      cases bs
      case nil => simp [lexBefore]
      case cons b bs =>
        simp only [lexBefore] at hl ⊢
        by_cases hab : a = b
        case pos =>
          subst hab
          by_cases hac : a = c
          case pos => simpa [hac] using hi bs (by simpa [hac] using hl)
          case neg => simp_all
        case neg =>
          by_cases hac : a = c
          case pos =>
            subst hac
            simpa [hab, Ne.symm hab] using h.total hab
          case neg =>
            simp only [hac, hab, if_false] at hl ⊢
            by_cases hbc : b = c
            case pos => exact .inl <| hbc ▸ hl
            case neg => simpa [hbc] using h.between b hl

theorem lex_total (h : IsOrder before) {as bs : List α} (hn : as ≠ bs) :
    lexBefore before as bs ∨ lexBefore before bs as := by
  induction as generalizing bs
  case nil => cases bs <;> simp_all [lexBefore]
  case cons a as hi =>
    cases bs
    case nil => simp [lexBefore]
    case cons b bs =>
      by_cases he : a = b
      case pos => simpa [lexBefore, he] using hi fun hs => hn <| by rw [he, hs]
      case neg => simpa [lexBefore, he, Ne.symm he] using h.total he

theorem lex (h : IsOrder before) : IsOrder (lexBefore before) where
  asymm := h.lex_asymm
  between := h.lex_between
  total := h.lex_total

end IsOrder

theorem charsBefore_isOrder : IsOrder charsBefore := by
  refine IsOrder.lex ⟨?_, ?_, ?_⟩
  · intro a b
    simp only [decide_eq_true_eq]
    omega
  · intro a c b
    simp only [decide_eq_true_eq]
    omega
  · intro a b hn
    have hn : a.toNat ≠ b.toNat := fun he => hn <| Char.toNat_inj.mp he
    simp only [decide_eq_true_eq]
    omega

theorem textBefore_isOrder : IsOrder textBefore :=
  charsBefore_isOrder.comap String.toList_inj.mp

theorem sortTexts_inOrder (texts : List String) : (sortTexts texts).Pairwise fun a b => inOrder a b :=
  textBefore_isOrder.pairwise_mergeSort texts

theorem sortTexts_perm (texts : List String) : (sortTexts texts).Perm texts :=
  List.mergeSort_perm _ _

theorem sortTexts_sublist {texts texts' : List String} (h : texts.Sublist texts') :
    (sortTexts texts).Sublist (sortTexts texts') := by
  have hanti : Std.Antisymm fun a b => inOrder a b = true := ⟨fun a b hab hba => by
    by_contra hn
    have := textBefore_isOrder.total hn
    simp_all [inOrder]⟩
  have hs : List.Subperm (sortTexts texts) (sortTexts texts') :=
    (sortTexts_perm texts).subperm.trans <| h.subperm.trans (sortTexts_perm texts').symm.subperm
  exact List.sublist_of_subperm_of_pairwise hs (sortTexts_inOrder _) (sortTexts_inOrder _)

end GraphqlArtifacts
