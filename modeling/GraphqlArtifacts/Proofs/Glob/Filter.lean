import Mathlib.Data.List.Basic
import GraphqlArtifacts.Glob.Filter
import GraphqlArtifacts.Proofs.Glob.Directories

namespace GraphqlArtifacts

-- A test that gives a result, which tells whether something is true.
def Decides (m : Except ε Bool) (P : Prop) : Prop :=
  ∃ b, m = .ok b ∧ (b ↔ P)

namespace Decides

variable {ε α : Type} {m : Except ε Bool} {P Q : Prop} {test : α → Except ε Bool} {p : α → Prop}
  {l : List α}

theorem ok_true_iff (h : Decides m P) : m = .ok true ↔ P := by
  obtain ⟨b, rfl, hb⟩ := h
  simpa using hb

theorem eq_of (h : Decides m P) (hp : P) : m = .ok true :=
  h.ok_true_iff.mpr hp

theorem eq_of_not (h : Decides m P) (hp : ¬ P) : m = .ok false := by
  obtain ⟨b, rfl, hb⟩ := h
  simp [← Bool.not_eq_true, hb, hp]

theorem congr (h : Decides m P) (hpq : P ↔ Q) : Decides m Q := by
  have ⟨b, hm, hb⟩ := h
  exact ⟨b, hm, hb.trans hpq⟩

theorem not (h : Decides m P) : Decides (m.map (!·)) (¬ P) := by
  obtain ⟨b, rfl, hb⟩ := h
  exact ⟨!b, rfl, by simp [← hb]⟩

theorem anyOrFault (h : ∀ a ∈ l, Decides (test a) (p a)) :
    Decides (anyOrFault test l) (∃ a ∈ l, p a) := by
  induction l
  case nil => exact ⟨false, rfl, by simp⟩
  case cons a l hi =>
    rw [List.forall_mem_cons] at h
    by_cases ha : p a
    case pos => exact ⟨true, by simp [GraphqlArtifacts.anyOrFault, h.left.eq_of ha], by simp [ha]⟩
    case neg =>
      have ⟨b, hb, hp⟩ := hi h.right
      exact ⟨b, by simp [GraphqlArtifacts.anyOrFault, h.left.eq_of_not ha, hb], by simp [hp, ha]⟩

end Decides

namespace Glob

variable {pattern path : String}

-- A pattern that stands for an expression.
def Compiles (pattern : String) : Prop :=
  (expression? pattern.toList).isSome

def Matches (pattern path : String) : Prop :=
  accepts pattern path = .ok true

theorem compiles_of_accepts {b : Bool} (h : accepts pattern path = .ok b) : Compiles pattern := by
  unfold accepts at h
  split at h
  case h_1 r hr => exact Option.isSome_iff_exists.mpr ⟨r, hr⟩
  case h_2      => cases h

theorem accepts_decides (h : Compiles pattern) :
    Decides (accepts pattern path) (Matches pattern path) := by
  have ⟨r, hr⟩ := Option.isSome_iff_exists.mp h
  exact ⟨r.accepts path.toList, by simp [accepts, hr], by simp [Matches, accepts, hr]⟩

end Glob

open Glob

-- All tests have been made once none holds.
theorem forall_of_anyOrFault {ε α : Type} {test : α → Except ε Bool} {l : List α}
    (h : anyOrFault test l = .ok false) : ∀ a ∈ l, test a = .ok false := by
  induction l
  case nil => simp
  case cons a l hi =>
    unfold anyOrFault at h
    split at h
    case h_1    => cases h
    case h_2 ha => exact List.forall_mem_cons.mpr ⟨ha, hi h⟩
    case h_3    => cases h

namespace PathFilter

-- All patterns to exclude have been read once a path is let through.
theorem compiles_of_accepts {f : PathFilter} {path : String} (h : f.accepts path = .ok true) :
    ∀ pattern ∈ f.excludes, Compiles pattern := by
  intro pattern hm
  unfold PathFilter.accepts at h
  split at h
  case h_1 => cases h
  case h_3 => cases h
  case h_2 he =>
    have hcandidates := forall_of_anyOrFault (forall_of_anyOrFault he pattern hm)
    obtain ⟨candidate, hc⟩ : ∃ candidate, candidate ∈ withParents path := by
      refine List.exists_mem_of_ne_nil _ ?_
      simp [withParents, splitSlashes_ne_nil]
    exact Glob.compiles_of_accepts <| hcandidates candidate hc

variable {f : PathFilter} {path directory : String} (h : ∀ pattern ∈ f.excludes, Compiles pattern)

include h

theorem isExcluded_decides : Decides (f.isExcluded path)
    (∃ pattern ∈ f.excludes, ∃ candidate ∈ withParents path, Matches pattern candidate) :=
  .anyOrFault fun pattern hp => .anyOrFault fun _ _ => accepts_decides <| h pattern hp

theorem excludesDirectory_decides : Decides (f.excludesDirectory directory)
    (∃ pattern ∈ f.excludes, Matches pattern directory ∨ Matches pattern (directory ++ "/")) := by
  refine .congr (.anyOrFault fun pattern hp => .anyOrFault fun _ _ =>
    accepts_decides <| h pattern hp) ?_
  simp

theorem accepts_decides (hi : ∀ pattern ∈ f.includes, Compiles pattern) : Decides (f.accepts path)
    ((¬ ∃ pattern ∈ f.excludes, ∃ candidate ∈ withParents path, Matches pattern candidate) ∧
      ∃ pattern ∈ f.includes, Matches pattern path) := by
  have he := @isExcluded_decides _ path h
  unfold PathFilter.accepts
  split
  case h_1 ht => exact ⟨false, rfl, by simp [he.ok_true_iff.mp ht]⟩
  case h_2 hf =>
    obtain ⟨b, hb, hp⟩ : Decides (anyOrFault (Glob.accepts · path) f.includes) _ :=
      .anyOrFault fun pattern hp => Glob.accepts_decides <| hi pattern hp
    refine ⟨b, hb, ?_⟩
    rw [hp, and_iff_right]
    rw [← he.ok_true_iff, hf]
    simp
  case h_3 hf =>
    have ⟨b, hb, _⟩ := he
    simp [hb] at hf

end PathFilter

end GraphqlArtifacts
