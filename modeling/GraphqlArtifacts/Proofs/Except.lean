import Mathlib.Data.List.Basic

namespace GraphqlArtifacts

variable {ε ε' α β : Type}

theorem bind_ok {m : Except ε α} {f : α → Except ε β} {b : β} :
    (m >>= f) = .ok b ↔ ∃ a, m = .ok a ∧ f a = .ok b := by
  cases m <;> simp [bind, Except.bind]

theorem bind_error {m : Except ε α} {f : α → Except ε β} {e : ε} :
    (m >>= f) = .error e ↔ m = .error e ∨ ∃ a, m = .ok a ∧ f a = .error e := by
  cases m <;> simp [bind, Except.bind]

theorem map_ok {m : Except ε α} {f : α → β} {b : β} :
    m.map f = .ok b ↔ ∃ a, m = .ok a ∧ f a = b := by
  cases m <;> simp [Except.map]

theorem guard_ok {c : Prop} [Decidable c] {e : ε} {m m' : Except ε α} {a : α} :
    (if c then (throw e : Except ε PUnit) >>= fun _ => m' else m) = .ok a ↔ ¬ c ∧ m = .ok a := by
  by_cases h : c <;> simp [h, bind, Except.bind, throw, throwThe, MonadExceptOf.throw]

theorem check_ok {c : Prop} [Decidable c] {check : Except ε PUnit} {m : Except ε α} {a : α}
    (h : (if c then check >>= fun _ => m else m) = .ok a) : m = .ok a := by
  by_cases hc : c
  case neg => rwa [if_neg hc] at h
  case pos =>
    rw [if_pos hc] at h
    have ⟨_, _, h⟩ := bind_ok.mp h
    exact h

theorem mapError_ok {m : Except ε α} {f : ε → ε'} {a : α} :
    m.mapError f = .ok a ↔ m = .ok a := by
  cases m <;> simp [Except.mapError]

theorem mapError_error {m : Except ε α} {f : ε → ε'} {e : ε'} :
    m.mapError f = .error e ↔ ∃ e', m = .error e' ∧ f e' = e := by
  cases m <;> simp [Except.mapError]

theorem ok_of_toOption {m : Except ε α} {a : α} (h : m.toOption = some a) : m = .ok a := by
  cases m <;> simp_all [Except.toOption]

theorem filterMapM_ok {f : α → Except ε (Option β)} {g : α → Option β} {l : List α}
    (h : ∀ a ∈ l, f a = .ok (g a)) : l.filterMapM f = .ok (l.filterMap g) := by
  induction l
  case nil => rfl
  case cons a l hi =>
    rw [List.forall_mem_cons] at h
    rw [List.filterMapM_cons, h.left, List.filterMap_cons]
    cases g a <;> simp [hi h.right, bind, Except.bind, pure, Except.pure]

theorem anyM_ok {f : α → Except ε Bool} {g : α → Bool} {l : List α}
    (h : ∀ a ∈ l, f a = .ok (g a)) : l.anyM f = .ok (l.any g) := by
  induction l
  case nil => rfl
  case cons a l hi =>
    rw [List.forall_mem_cons] at h
    rw [List.anyM_cons, h.left, List.any_cons]
    cases g a <;> simp [hi h.right, bind, Except.bind, pure, Except.pure]

theorem exists_mapM_ok {f : α → Except ε β} {l : List α} (h : ∀ a ∈ l, ∃ b, f a = .ok b) :
    ∃ l', l.mapM f = .ok l' := by
  induction l
  case nil => exact ⟨[], rfl⟩
  case cons a l hi =>
    rw [List.forall_mem_cons] at h
    obtain ⟨b, hb⟩ := h.left
    obtain ⟨l', hl⟩ := hi h.right
    exact ⟨b :: l', by simp [hb, hl, bind, Except.bind, pure, Except.pure]⟩

theorem mem_of_mapM {f : α → Except ε β} {l : List α} {l' : List β} {b : β}
    (h : l.mapM f = .ok l') (hb : b ∈ l') : ∃ a ∈ l, f a = .ok b := by
  induction l generalizing l'
  case nil =>
    cases h
    simp at hb
  case cons a l hi =>
    rw [List.mapM_cons] at h
    have ⟨b', hf, h⟩ := bind_ok.mp h
    have ⟨later, hl, h⟩ := bind_ok.mp h
    cases h
    cases hb
    case head => exact ⟨a, List.mem_cons_self .., hf⟩
    case tail hb =>
      have ⟨a', hm, hf⟩ := hi hl hb
      exact ⟨a', List.mem_cons_of_mem _ hm, hf⟩

theorem mem_of_filterMapM {f : α → Except ε (Option β)} {l : List α} {l' : List β}
    {b : β} (h : l.filterMapM f = .ok l') (hb : b ∈ l') : ∃ a ∈ l, f a = .ok (some b) := by
  induction l generalizing l'
  case nil =>
    cases h
    simp at hb
  case cons a l hi =>
    rw [List.filterMapM_cons] at h
    obtain ⟨b', hf, h⟩ := bind_ok.mp h
    cases b'
    case none =>
      obtain ⟨a', hm, hb⟩ := hi h hb
      exact ⟨a', List.mem_cons_of_mem _ hm, hb⟩
    case some b' =>
      obtain ⟨later, hl, h⟩ := bind_ok.mp h
      cases h
      obtain rfl | hb := List.mem_cons.mp hb
      · exact ⟨a, List.mem_cons_self .., hf⟩
      · obtain ⟨a', hm, hb⟩ := hi hl hb
        exact ⟨a', List.mem_cons_of_mem _ hm, hb⟩

theorem mem_of_filterMapM_error {f : α → Except ε (Option β)} {l : List α} {e : ε}
    (h : l.filterMapM f = .error e) : ∃ a ∈ l, f a = .error e := by
  induction l
  case nil => cases h
  case cons a l hi =>
    rw [List.filterMapM_cons] at h
    obtain hf | ⟨b, _, h⟩ := bind_error.mp h
    case inl => exact ⟨a, List.mem_cons_self, hf⟩
    case inr =>
      have h : l.filterMapM f = .error e := by
        cases b
        case none => exact h
        case some =>
          obtain h | ⟨_, _, h⟩ := bind_error.mp h
          · exact h
          · cases h
      have ⟨a', hm, hf⟩ := hi h
      exact ⟨a', List.mem_cons_of_mem _ hm, hf⟩

-- A test that gives what another one gives, or nothing, gives fewer of its results.
theorem filterMapM_sublist {f g : α → Except ε (Option β)} {l : List α} {found : List β}
    (h : ∀ a ∈ l, ∀ b, f a = .ok b → ∃ b', g a = .ok b' ∧ (b = b' ∨ b = none))
    (hf : l.filterMapM f = .ok found) : ∃ all, l.filterMapM g = .ok all ∧ found.Sublist all := by
  induction l generalizing found
  case nil =>
    cases hf
    exact ⟨[], rfl, .slnil⟩
  case cons a l hi =>
    rw [List.forall_mem_cons] at h
    rw [List.filterMapM_cons] at hf ⊢
    obtain ⟨b, hb, hf⟩ := bind_ok.mp hf
    have ⟨b', hb', hsame⟩ := h.left b hb
    rw [hb']
    cases b
    case none =>
      have ⟨all, ha, hs⟩ := hi h.right hf
      cases b'
      case none   => exact ⟨all, ha, hs⟩
      case some b => exact ⟨b :: all, bind_ok.mpr ⟨_, rfl, bind_ok.mpr ⟨all, ha, rfl⟩⟩, hs.cons b⟩
    case some b =>
      obtain ⟨later, hl, hf⟩ := bind_ok.mp hf
      cases hf
      have ⟨all, ha, hs⟩ := hi h.right hl
      obtain rfl : some b = b' := hsame.resolve_right nofun
      exact ⟨b :: all, bind_ok.mpr ⟨_, rfl, bind_ok.mpr ⟨all, ha, rfl⟩⟩, hs.cons_cons b⟩

-- Leaving out items that give nothing or a fault of some kind, which no other item has, changes the
-- outcome exactly if it is such a fault.
theorem filterMapM_filter_iff {f : α → Except ε (Option β)} {keep : α → Bool} {P : ε → Prop}
    {l : List α} (hk : ∀ a, keep a → ∀ e, P e → f a ≠ .error e)
    (hd : ∀ a, ¬ keep a → f a = .ok none ∨ ∃ e, P e ∧ f a = .error e) :
    (l.filter keep).filterMapM f = l.filterMapM f ↔ ∀ e, P e → l.filterMapM f ≠ .error e := by
  induction l
  case nil => simp [pure, Except.pure]
  case cons a l hi =>
    by_cases ha : keep a
    case pos =>
      rw [List.filter_cons_of_pos ha, List.filterMapM_cons, List.filterMapM_cons]
      cases hf : f a
      case error e =>
        have hp : ¬ P e := fun hp => hk a ha e hp hf
        simp only [bind, Except.bind, true_iff, ne_eq, Except.error.injEq]
        exact fun _ hp' he => hp <| he ▸ hp'
      case ok b =>
        cases b
        case none   => exact hi
        case some b =>
          cases hl : (l.filter keep).filterMapM f <;> cases hr : l.filterMapM f <;>
            simp_all [bind, Except.bind, pure, Except.pure]
    case neg =>
      rw [List.filter_cons_of_neg ha, List.filterMapM_cons]
      obtain hf | ⟨e, hp, hf⟩ := hd a ha
      case inl =>
        rw [hf]
        exact hi
      case inr =>
        rw [hf]
        refine ⟨fun h => ?_, fun h => absurd rfl (h e hp)⟩
        have ⟨a, hm, hf⟩ := mem_of_filterMapM_error h
        exact absurd hf <| hk a (List.of_mem_filter hm) e hp

end GraphqlArtifacts
