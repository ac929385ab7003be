import Mathlib.Data.List.Basic
import Mathlib.Logic.Relation
import GraphqlArtifacts.Glob.Basic

namespace GraphqlArtifacts

namespace Regex

-- An expression takes a part of a text, where something follows. What follows counts only for an
-- assertion at the end of the part.
inductive Takes : Regex → List Char → List Char → Prop
  | empty {v} : Takes .empty [] v
  | notDot {v} : v.head? ≠ some '.' → Takes .notDot [] v
  | one {set c v} : set.contains c → Takes (.one set) [c] v
  | cat {a b u u' v} : Takes a u (u' ++ v) → Takes b u' v → Takes (.cat a b) (u ++ u') v
  | left {a b u v} : Takes a u v → Takes (.alt a b) u v
  | right {a b u v} : Takes b u v → Takes (.alt a b) u v
  | stop {a v} : Takes (.star a) [] v
  | more {a u u' v} : Takes a u (u' ++ v) → Takes (.star a) u' v → Takes (.star a) (u ++ u') v

variable {a b r : Regex} {rs : List Regex} {set : CharSet} {c : Char} {s t u u' v v' : List Char}
  {step : List Char → List (List Char)} {latest found : List (List Char)} {rounds : Nat}

@[simp]
theorem takes_empty_iff : Takes .empty u v ↔ u = [] := by
  constructor
  case mp  => rintro ⟨⟩; rfl
  case mpr => rintro rfl; exact .empty

@[simp]
theorem takes_notDot_iff : Takes .notDot u v ↔ u = [] ∧ v.head? ≠ some '.' := by
  constructor
  case mp  => rintro ⟨⟩; exact ⟨rfl, ‹_›⟩
  case mpr => rintro ⟨rfl, h⟩; exact .notDot h

@[simp]
theorem takes_one_iff : Takes (.one set) u v ↔ ∃ c, u = [c] ∧ set.contains c := by
  constructor
  case mp  => rintro ⟨⟩; exact ⟨_, rfl, ‹_›⟩
  case mpr => rintro ⟨c, rfl, h⟩; exact .one h

theorem takes_cat_iff : Takes (.cat a b) u v ↔
    ∃ u₁ u₂, u = u₁ ++ u₂ ∧ a.Takes u₁ (u₂ ++ v) ∧ b.Takes u₂ v := by
  constructor
  case mp  => rintro ⟨⟩; exact ⟨_, _, rfl, ‹_›, ‹_›⟩
  case mpr => rintro ⟨u₁, u₂, rfl, h₁, h₂⟩; exact .cat h₁ h₂

theorem takes_alt_iff : Takes (.alt a b) u v ↔ a.Takes u v ∨ b.Takes u v := by
  constructor
  case mp =>
    rintro ⟨⟩
    case left  => exact .inl ‹_›
    case right => exact .inr ‹_›
  case mpr => exact fun h => h.elim .left .right

@[simp]
theorem takes_char_iff : Takes (.char c) u v ↔ u = [c] := by
  have hc (d : Char) : (CharSet.only c).contains d ↔ d = c := by
    simp only [CharSet.only, CharSet.contains, List.any_cons, List.any_nil, Bool.or_false,
      Bool.bne_false, Bool.and_eq_true, decide_eq_true_eq]
    exact ⟨fun h => Char.le_antisymm h.right h.left, fun h => by simp [h]⟩
  simp [Regex.char, hc]

-- An alternative of no expressions takes nothing.
theorem takes_altAll_iff : Takes (.altAll rs) u v ↔
    (rs = [] ∧ u = []) ∨ ∃ r ∈ rs, r.Takes u v := by
  induction rs
  case nil => simp [altAll]
  case cons r rs hi =>
    cases rs
    case nil => simp [altAll]
    case cons => simp [altAll, takes_alt_iff, hi]

theorem Takes.once (h : a.Takes u v) : Takes (.star a) u v := by
  rw [← List.append_nil u]
  exact .more h .stop

-- Induction on the number of rounds of a repetition.
theorem Takes.star_induction {P : List Char → Prop} (h : Takes (.star a) u v) (nil : P [])
    (cons : ∀ {u u'}, a.Takes u (u' ++ v) → Takes (.star a) u' v → P u' → P (u ++ u')) : P u := by
  generalize hr : Regex.star a = r at h
  induction h <;> cases hr
  case stop            => exact nil
  case more h hs _ hi  => exact cons h hs <| hi cons rfl

-- A repetition begins with a round that takes something, if it takes anything at all.
theorem takes_star_iff : Takes (.star a) u v ↔ u = [] ∨
    ∃ u₁ u₂, u = u₁ ++ u₂ ∧ u₁ ≠ [] ∧ a.Takes u₁ (u₂ ++ v) ∧ Takes (.star a) u₂ v := by
  constructor
  case mp =>
    intro h
    refine h.star_induction (P := fun u => u = [] ∨ ∃ u₁ u₂, u = u₁ ++ u₂ ∧ u₁ ≠ [] ∧
      a.Takes u₁ (u₂ ++ v) ∧ Takes (.star a) u₂ v) (.inl rfl) fun {u u'} ha hs hi => ?_
    by_cases hu : u = []
    case pos => simpa [hu] using hi
    case neg => exact .inr ⟨u, u', rfl, hu, ha, hs⟩
  case mpr =>
    rintro (rfl | ⟨u₁, u₂, rfl, _, ha, hs⟩)
    · exact .stop
    · exact .more ha hs

-- Of what follows, only a dot at its start matters.
theorem Takes.congr (h : r.Takes u v) (hv : v.head? = some '.' ↔ v'.head? = some '.') :
    r.Takes u v' := by
  have happ {w w' x : List Char} (hw : w.head? = some '.' ↔ w'.head? = some '.') :
      (x ++ w).head? = some '.' ↔ (x ++ w').head? = some '.' := by
    cases x <;> simp [hw]
  induction h generalizing v'
  case empty          => exact .empty
  case notDot h       => exact .notDot <| mt hv.mpr h
  case one h          => exact .one h
  case cat ha hb      => exact .cat (ha <| happ hv) (hb hv)
  case left ha        => exact .left (ha hv)
  case right hb       => exact .right (hb hv)
  case stop           => exact .stop
  case more ha hs     => exact .more (ha <| happ hv) (hs hv)

-- What any number of steps leaves, from one of some texts.
def Leaves (step : List Char → List (List Char)) (found : List (List Char)) (v : List Char) :
    Prop :=
  ∃ t ∈ found, Relation.ReflTransGen (fun t t' => t' ∈ step t) t v

theorem leaves_iff_mem (h : ∀ t ∈ found, step t ⊆ found) : Leaves step found v ↔ v ∈ found := by
  constructor
  case mp =>
    rintro ⟨t, hm, hg⟩
    induction hg
    case refl        => exact hm
    case tail _ h' hi => exact h _ hi h'
  case mpr => exact fun hm => ⟨v, hm, .refl⟩

theorem leaves_append_iff {new : List (List Char)} (h : ∀ t ∈ new, ∃ t' ∈ found, t ∈ step t') :
    Leaves step (found ++ new) v ↔ Leaves step found v := by
  constructor
  case mp =>
    rintro ⟨t, ht, hg⟩
    cases List.mem_append.mp ht
    case inl ht => exact ⟨t, ht, hg⟩
    case inr ht =>
      have ⟨t', hm, hs⟩ := h t ht
      exact ⟨t', hm, .head hs hg⟩
  case mpr => exact fun ⟨t, ht, hg⟩ => ⟨t, List.mem_append_left _ ht, hg⟩

-- What any number of rounds leaves, from texts that were all found and gone on from but the latest.
-- The latest get shorter with each round, so that there are enough rounds.
theorem mem_closure_iff (hr : ∀ t ∈ latest, t.length ≤ rounds) (hl : latest ⊆ found)
    (hs : ∀ t, ∀ t' ∈ step t, t' = t ∨ t'.length < t.length)
    (hf : ∀ t ∈ found, t ∉ latest → step t ⊆ found) :
    v ∈ closure step rounds latest found ↔ Leaves step found v := by
  induction rounds generalizing latest found
  case zero =>
    refine (leaves_iff_mem fun t ht => ?_).symm
    by_cases hm : t ∈ latest
    case neg => exact hf t ht hm
    case pos =>
      intro t' ht'
      have ht₀ : t.length = 0 := Nat.le_zero.mp <| hr t hm
      obtain rfl | hlt := hs t t' ht'
      · exact ht
      · omega
  case succ rounds hi =>
    unfold closure
    generalize hn : (latest.flatMap step).eraseDups.filter (fun t => !found.contains t) = new
    have hmem (t : List Char) : t ∈ new ↔ (∃ t' ∈ latest, t ∈ step t') ∧ t ∉ found := by
      simp [← hn, List.mem_eraseDups]
    have hstep {t} (ht : t ∈ found) : step t ⊆ found ++ new := by
      intro t' ht'
      by_cases hm : t ∈ latest
      case neg => exact List.mem_append_left _ <| hf t ht hm ht'
      case pos =>
        by_cases hin : t' ∈ found
        · exact List.mem_append_left _ hin
        · exact List.mem_append_right _ <| (hmem t').mpr ⟨⟨t, hm, ht'⟩, hin⟩
    cases new
    case nil => exact (leaves_iff_mem fun t ht => by simpa using hstep ht).symm
    case cons t₀ more =>
      have hnew (t) (ht : t ∈ t₀ :: more) : ∃ t' ∈ latest, t ∈ step t' := ((hmem t).mp ht).left
      refine (hi ?hr ?hl ?hf).trans <| leaves_append_iff fun t ht => ?hg
      case hr =>
        intro t ht
        have ⟨t', hm', ht'⟩ := hnew t ht
        have := hr t' hm'
        obtain rfl | hlt := hs t' t ht'
        · exact absurd (hl hm') ((hmem t).mp ht).right
        · omega
      case hl => exact List.subset_append_right _ _
      case hf =>
        intro t ht hm
        exact hstep <| (List.mem_append.mp ht).resolve_right hm
      case hg =>
        have ⟨t', hm', ht'⟩ := hnew t ht
        exact ⟨t', hl hm', ht'⟩

theorem mem_ends_notDot_iff : v ∈ ends .notDot s ↔ s = v ∧ v.head? ≠ some '.' := by
  unfold ends
  split
  case h_1 rest =>
    simp only [List.not_mem_nil, false_iff]
    rintro ⟨rfl, hv⟩
    exact hv rfl
  case h_2 s hs =>
    rw [List.mem_singleton, eq_comm]
    refine (and_iff_left_of_imp ?_).symm
    rintro rfl hd
    have ⟨rest, hr⟩ := List.head?_eq_some_iff.mp hd
    exact hs rest hr

theorem mem_ends_one_iff : v ∈ ends (.one set) s ↔ ∃ c, s = c :: v ∧ set.contains c := by
  cases s
  case nil => simp [ends]
  case cons c rest =>
    rw [ends]
    by_cases hc : set.contains c <;> simp [hc, @eq_comm _ v]

-- Steps that each leave what follows a part leave what follows the parts of a repetition.
theorem steps_iff (ha : ∀ {t v}, v ∈ a.ends t ↔ ∃ u, t = u ++ v ∧ a.Takes u v) :
    Relation.ReflTransGen (fun t t' => t' ∈ a.ends t) s v ↔
      ∃ u, s = u ++ v ∧ Takes (.star a) u v := by
  constructor
  case mp =>
    intro h
    induction h using Relation.ReflTransGen.head_induction_on
    case refl => exact ⟨[], rfl, .stop⟩
    case head t t' ht _ hi =>
      obtain ⟨u, rfl, hu⟩ := ha.mp ht
      obtain ⟨u', rfl, hu'⟩ := hi
      exact ⟨u ++ u', by simp, .more hu hu'⟩
  case mpr =>
    rintro ⟨u, rfl, h⟩
    refine h.star_induction (P := fun u => Relation.ReflTransGen (fun t t' => t' ∈ a.ends t)
      (u ++ v) v) .refl fun {u u'} hu _ hi => ?_
    exact .head (ha.mpr ⟨u, by simp, hu⟩) hi

-- What an expression leaves of a text is what follows the parts that it takes.
theorem mem_ends_iff : v ∈ r.ends s ↔ ∃ u, s = u ++ v ∧ r.Takes u v := by
  induction r generalizing s v
  case empty   => simp [ends, eq_comm]
  case notDot  => simp [mem_ends_notDot_iff]
  case one set => simp [mem_ends_one_iff]
  case cat a b ha hb =>
    simp only [ends, List.mem_eraseDups, List.mem_flatMap, ha, hb, takes_cat_iff]
    constructor
    case mp =>
      rintro ⟨_, ⟨u₁, rfl, h₁⟩, u₂, rfl, h₂⟩
      exact ⟨u₁ ++ u₂, by simp, u₁, u₂, rfl, h₁, h₂⟩
    case mpr =>
      rintro ⟨_, rfl, u₁, u₂, rfl, h₁, h₂⟩
      exact ⟨u₂ ++ v, ⟨u₁, by simp, h₁⟩, u₂, rfl, h₂⟩
  case alt a b ha hb =>
    simp only [ends, List.mem_eraseDups, List.mem_append, ha, hb, takes_alt_iff]
    grind
  case star a ha =>
    have hs (t t' : List Char) (ht' : t' ∈ a.ends t) : t' = t ∨ t'.length < t.length := by
      obtain ⟨u, rfl, _⟩ := ha.mp ht'
      cases u
      case nil      => exact .inl rfl
      case cons c u => exact .inr <| by simp only [List.length_append, List.length_cons]; omega
    rw [ends, mem_closure_iff (by simp) (by simp) hs (by simp), Leaves]
    simp only [List.mem_singleton, exists_eq_left, steps_iff ha]

theorem accepts_iff : r.accepts s ↔ r.Takes s [] := by
  simp [accepts, mem_ends_iff]

end Regex

end GraphqlArtifacts
