import Mathlib.Order.Defs.Unbundled
import GraphqlArtifacts.Engine.State

namespace GraphqlArtifacts

variable {ε σ α β : Type}

-- What a program that may fail leaves behind: its result or fault, and the state either way.
def exec (m : ExceptT ε (StateM σ) α) (s : σ) : Except ε α × σ :=
  m.run.run s

section

variable {m m' : ExceptT ε (StateM σ) α} {f : α → ExceptT ε (StateM σ) β} {s s' : σ}

theorem exec_ext (h : ∀ s, exec m s = exec m' s) : m = m' :=
  funext h

@[simp]
theorem exec_pure (a : α) (s : σ) : exec (pure a : ExceptT ε (StateM σ) α) s = (.ok a, s) :=
  rfl

@[simp]
theorem exec_throw (e : ε) (s : σ) : exec (throw e : ExceptT ε (StateM σ) α) s = (.error e, s) :=
  rfl

@[simp]
theorem exec_get (s : σ) : exec (get : ExceptT ε (StateM σ) σ) s = (.ok s, s) :=
  rfl

@[simp]
theorem exec_set (s s' : σ) : exec (set s' : ExceptT ε (StateM σ) PUnit) s = (.ok ⟨⟩, s') :=
  rfl

@[simp]
theorem exec_modify (g : σ → σ) (s : σ) :
    exec (modify g : ExceptT ε (StateM σ) PUnit) s = (.ok ⟨⟩, g s) :=
  rfl

@[simp]
theorem exec_step (r : Except ε α) (s : σ) :
    exec (ExceptT.mk (pure r) : ExceptT ε (StateM σ) α) s = (r, s) :=
  rfl

@[simp]
theorem exec_liftM (r : Except ε α) (s : σ) :
    exec (liftM r : ExceptT ε (StateM σ) α) s = (r, s) :=
  rfl

theorem exec_of_toOption {a : α} (h : (exec m s).1.toOption = some a) :
    ∃ s', exec m s = (.ok a, s') := by
  rcases he : exec m s with ⟨_ | _, s'⟩ <;> simp [he, Except.toOption] at h
  exact ⟨s', h ▸ rfl⟩

theorem exec_of_toOption_none (h : (exec m s).1.toOption = none) :
    ∃ e s', exec m s = (.error e, s') := by
  rcases he : exec m s with ⟨e | _, s'⟩ <;> simp [he, Except.toOption] at h
  exact ⟨e, s', rfl⟩

theorem exec_bind : exec (m >>= f) s =
    match exec m s with
    | (.ok a, s')    => exec (f a) s'
    | (.error e, s') => (.error e, s') := by
  change (ExceptT.bindCont f (exec m s).1).run (exec m s).2 = _
  rcases exec m s with ⟨_ | _, _⟩ <;> rfl

theorem exec_bind_of_ok {a : α} (h : exec m s = (.ok a, s')) :
    exec (m >>= f) s = exec (f a) s' := by
  rw [exec_bind, h]

theorem exec_bind_of_error {e : ε} (h : exec m s = (.error e, s')) :
    exec (m >>= f) s = (.error e, s') := by
  rw [exec_bind, h]

-- A program that ends well has ended well in each of its parts.
theorem exec_bind_ok {b : β} : exec (m >>= f) s = (.ok b, s') ↔
    ∃ a s₁, exec m s = (.ok a, s₁) ∧ exec (f a) s₁ = (.ok b, s') := by
  rw [exec_bind]
  rcases exec m s with ⟨_ | _, _⟩ <;> simp [and_assoc]

theorem exec_bind_error {e : ε} : exec (m >>= f) s = (.error e, s') ↔
    exec m s = (.error e, s') ∨
      ∃ a s₁, exec m s = (.ok a, s₁) ∧ exec (f a) s₁ = (.error e, s') := by
  rw [exec_bind]
  rcases exec m s with ⟨_ | _, _⟩ <;> simp [and_assoc]

theorem exec_map (g : α → β) : exec (g <$> m) s = ((exec m s).1.map g, (exec m s).2) := by
  rw [← bind_pure_comp, exec_bind]
  rcases exec m s with ⟨_ | _, _⟩ <;> rfl

theorem exec_discard : exec (discard m) s = ((exec m s).1.map fun _ => ⟨⟩, (exec m s).2) :=
  exec_map _

theorem exec_forM_cons {f : γ → ExceptT ε (StateM σ) PUnit} {c : γ} {l : List γ} :
    exec ((c :: l).forM f) s = exec (f c >>= fun _ => l.forM f) s :=
  rfl

theorem exec_tryCatch (h : ε → ExceptT ε (StateM σ) α) : exec (tryCatch m h) s =
    match exec m s with
    | (.ok a, s')    => (.ok a, s')
    | (.error e, s') => exec (h e) s' := by
  change StateT.run (match (exec m s).1 with
    | .ok a    => Pure.pure (.ok a)
    | .error e => (h e).run) (exec m s).2 = _
  rcases exec m s with ⟨_ | _, _⟩ <;> rfl

end

-- The state at the end of a program is related to the one at its start, also when it fails.
def Keeps (R : σ → σ → Prop) (m : ExceptT ε (StateM σ) α) : Prop :=
  ∀ s, R s (exec m s).2

namespace Keeps

variable {R : σ → σ → Prop} {m : ExceptT ε (StateM σ) α} {f : α → ExceptT ε (StateM σ) β}

theorem exec {s s' : σ} {r : Except ε α} (h : Keeps R m) (he : exec m s = (r, s')) : R s s' := by
  have := h s
  rwa [he] at this

theorem discard (hm : Keeps R m) : Keeps R (discard m) := by
  intro s
  rw [exec_discard]
  exact hm s

variable [IsPreorder σ R]

theorem pure (a : α) : Keeps R (pure a : ExceptT ε (StateM σ) α) :=
  fun s => refl_of R s

theorem throw (e : ε) : Keeps R (throw e : ExceptT ε (StateM σ) α) :=
  fun s => refl_of R s

theorem step (r : Except ε α) : Keeps R (ExceptT.mk (Pure.pure r) : ExceptT ε (StateM σ) α) :=
  fun s => refl_of R s

theorem bind (hm : Keeps R m) (hf : ∀ a, Keeps R (f a)) : Keeps R (m >>= f) := by
  intro s
  rw [exec_bind]
  rcases he : GraphqlArtifacts.exec m s with ⟨_ | a, s'⟩
  case error => exact hm.exec he
  case ok    => exact trans_of R (hm.exec he) (hf a s')

theorem forM {l : List γ} {f : γ → ExceptT ε (StateM σ) PUnit} (h : ∀ c ∈ l, Keeps R (f c)) :
    Keeps R (l.forM f) := by
  induction l
  case nil => exact .pure _
  case cons c l hi =>
    exact .bind (h c (by simp)) fun _ => hi fun c hc => h c (by simp [hc])

theorem foldlM {l : List γ} {g : β → γ → ExceptT ε (StateM σ) β} {b : β}
    (h : ∀ c ∈ l, ∀ b, Keeps R (g b c)) : Keeps R (l.foldlM g b) := by
  induction l generalizing b
  case nil => exact .pure _
  case cons c l hi =>
    rw [List.foldlM_cons]
    exact .bind (h c (by simp) b) fun _ => hi fun c hc => h c (by simp [hc])

theorem mapM {l : List γ} {f : γ → ExceptT ε (StateM σ) α} (h : ∀ c ∈ l, Keeps R (f c)) :
    Keeps R (l.mapM f) := by
  induction l
  case nil => exact .pure _
  case cons c l hi =>
    rw [List.mapM_cons]
    exact .bind (h c (by simp)) fun _ => .bind (hi fun c hc => h c (by simp [hc])) fun _ => .pure _

theorem tryCatch {h : ε → ExceptT ε (StateM σ) α} (hm : Keeps R m) (hh : ∀ e, Keeps R (h e)) :
    Keeps R (tryCatch m h) := by
  intro s
  rw [exec_tryCatch]
  rcases he : GraphqlArtifacts.exec m s with ⟨e | _, s'⟩
  case error => exact trans_of R (hm.exec he) (hh e s')
  case ok    => exact hm.exec he

end Keeps

-- What can be said of every fault that a program ends with.
def Raises (P : ε → Prop) (m : ExceptT ε (StateM σ) α) : Prop :=
  ∀ s e s', exec m s = (.error e, s') → P e

namespace Raises

variable {P : ε → Prop} {m : ExceptT ε (StateM σ) α} {f : α → ExceptT ε (StateM σ) β}

theorem of_ok (h : ∀ s, ∃ a s', exec m s = (.ok a, s')) : Raises P m := by
  intro s e s' he
  have ⟨a, s₁, ha⟩ := h s
  cases ha.symm.trans he

theorem pure (a : α) : Raises P (pure a : ExceptT ε (StateM σ) α) := by
  intro s e s' h
  simp at h

theorem get : Raises P (get : ExceptT ε (StateM σ) σ) := by
  intro s e s' h
  simp at h

theorem set (s : σ) : Raises P (set s : ExceptT ε (StateM σ) PUnit) := by
  intro s e s' h
  simp at h

theorem modify (g : σ → σ) : Raises P (modify g : ExceptT ε (StateM σ) PUnit) := by
  intro s e s' h
  simp at h

theorem throw {e : ε} (h : P e) : Raises P (throw e : ExceptT ε (StateM σ) α) := by
  intro s e' s' he
  cases he
  exact h

theorem liftM {r : Except ε α} (h : ∀ e, r = .error e → P e) :
    Raises P (liftM r : ExceptT ε (StateM σ) α) := by
  intro s e s' he
  rw [exec_liftM] at he
  exact h e (Prod.mk.inj he).left

theorem bind (hm : Raises P m) (hf : ∀ a, Raises P (f a)) : Raises P (m >>= f) := by
  intro s e s' h
  cases exec_bind_error.mp h
  case inl h => exact hm s e s' h
  case inr h =>
    have ⟨a, s₁, _, h⟩ := h
    exact hf a s₁ e s' h

theorem discard (hm : Raises P m) : Raises P (discard m) := by
  intro s e s' h
  rw [exec_discard] at h
  rcases he : exec m s with ⟨e' | _, s₁⟩ <;> simp [he, Except.map] at h
  obtain ⟨rfl, rfl⟩ := h
  exact hm _ _ _ he

theorem forM {l : List γ} {f : γ → ExceptT ε (StateM σ) PUnit} (h : ∀ c ∈ l, Raises P (f c)) :
    Raises P (l.forM f) := by
  induction l
  case nil => exact .pure _
  case cons c l hi =>
    exact .bind (h c (by simp)) fun _ => hi fun c hc => h c (by simp [hc])

theorem foldlM {l : List γ} {g : β → γ → ExceptT ε (StateM σ) β} {b : β}
    (h : ∀ c ∈ l, ∀ b, Raises P (g b c)) : Raises P (l.foldlM g b) := by
  induction l generalizing b
  case nil => exact .pure _
  case cons c l hi =>
    rw [List.foldlM_cons]
    exact .bind (h c (by simp) b) fun _ => hi fun c hc => h c (by simp [hc])

theorem mono {Q : ε → Prop} (hm : Raises P m) (h : ∀ e, P e → Q e) : Raises Q m :=
  fun s e s' he => h e <| hm s e s' he

end Raises

-- An element of two lists in a row is in the first or in the second.
theorem append_eq_append_cons {l l' before after : List α} {a : α}
    (h : l ++ l' = before ++ a :: after) : (∃ mid, l = before ++ a :: mid ∧ after = mid ++ l') ∨
      ∃ mid, before = l ++ mid ∧ l' = mid ++ a :: after := by
  obtain ⟨mid, hb, hl⟩ | ⟨mid, hl, ha⟩ := List.append_eq_append_iff.mp h
  case inl => exact .inr ⟨mid, hb, hl⟩
  case inr =>
    cases mid
    case nil      => exact .inr ⟨[], by simpa using hl.symm, ha.symm⟩
    case cons _ m =>
      obtain ⟨rfl, rfl⟩ := List.cons.inj ha
      exact .inl ⟨m, hl, rfl⟩

end GraphqlArtifacts
