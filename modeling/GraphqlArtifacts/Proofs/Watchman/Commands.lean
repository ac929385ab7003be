import GraphqlArtifacts.Proofs.Exec
import GraphqlArtifacts.Watchman.Client

namespace GraphqlArtifacts.Watchman

variable {σ : Type} {service : WatchService σ} {base : Path} {watches watches' : Watches}
  {s s' : σ} {v : Watch}

theorem exec_command (words : List Data) : exec (command service words) (watches, s) =
    ((service words s).1, (watches, (service words s).2)) :=
  rfl

-- The watch of a directory is one that is kept, or it is asked for, given, and kept then.
theorem exec_watchProject : exec (watchProject service base) (watches, s) =
    match watches.find? (·.1 == base) with
    | some (_, v) => (.ok v, (watches, s))
    | none =>
      match service [.text "watch-project", .text base.text] s with
      | (.error e, s') => (.error e, (watches, s'))
      | (.ok answer, s') =>
        match watchOf answer with
        | .error e => (.error e, (watches, s'))
        | .ok v    => (.ok v, (watches ++ [(base, v)], s')) := by
  rw [watchProject, exec_bind_of_ok (exec_get _)]
  cases hf : watches.find? (·.1 == base) <;> simp only [hf]
  case some => rfl
  case none =>
    rcases ha : service [.text "watch-project", .text base.text] s with ⟨_ | answer, s'⟩
    case error => simp only [exec_bind, exec_command, ha]
    case ok =>
      simp only [exec_bind, exec_command, ha]
      cases watchOf answer <;> rfl

theorem watchProject_ok
    (h : exec (watchProject service base) (watches, s) = (.ok v, (watches', s'))) :
    (watches.find? (·.1 == base) = some (base, v) ∧ watches' = watches ∧ s' = s) ∨
    (watches.find? (·.1 == base) = none ∧ watches' = watches ++ [(base, v)] ∧
      ∃ answer, service [.text "watch-project", .text base.text] s = (.ok answer, s') ∧
        watchOf answer = .ok v) := by
  rw [exec_watchProject] at h
  cases hf : watches.find? (·.1 == base) <;> simp only [hf] at h
  case some d =>
    have hb : d.1 = base := by simpa using List.find?_some hf
    cases h
    exact .inl ⟨by rw [← hb], rfl, rfl⟩
  case none =>
    rcases ha : service [.text "watch-project", .text base.text] s with ⟨_ | answer, s₁⟩
    all_goals simp only [ha] at h
    case error => cases h
    case ok =>
      cases hv : watchOf answer <;> simp only [hv] at h <;> cases h
      exact .inr ⟨rfl, rfl, answer, rfl, hv⟩

end GraphqlArtifacts.Watchman
