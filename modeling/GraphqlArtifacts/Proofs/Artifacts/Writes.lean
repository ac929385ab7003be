import GraphqlArtifacts.Proofs.Artifacts.Renderings
import GraphqlArtifacts.Proofs.Files.Walk

namespace GraphqlArtifacts

-- The changes with what is written for a path, which had a text or none before.
def ArtifactChanges.noted (c : ArtifactChanges) (p : Path) (text : String) :
    Option String → ArtifactChanges
  | .none     => { c with created := c.created ++ [p] }
  | .some old =>
    if old = text then { c with unchanged := c.unchanged ++ [p] }
    else { c with updated := c.updated ++ [p] }

namespace ArtifactChanges

variable {c : ArtifactChanges} {p : Path} {text : String} {old : Option String}

@[simp]
theorem noted_deleted : (c.noted p text old).deleted = c.deleted := by
  cases old
  case none => rfl
  case some old => by_cases h : old = text <;> simp [noted, h]

-- Whether nothing was written.
def IsCalm (c : ArtifactChanges) : Prop :=
  c.created = [] ∧ c.updated = []

theorem isCalm_noted_iff : (c.noted p text old).IsCalm ↔ c.IsCalm ∧ old = some text := by
  cases old
  case none => simp [IsCalm, noted]
  case some old => by_cases h : old = text <;> simp [IsCalm, noted, h]

theorem not_hasChanges_iff : ¬ c.hasChanges ↔ c.IsCalm ∧ c.deleted = [] := by
  simp [hasChanges, IsCalm, and_assoc]

end ArtifactChanges

namespace ArtifactWriter

open GraphqlArtifacts.Tree (Became)

variable {t u v : Tree} {p : Path} {text : String} {old : Option String}
  {c c' : ArtifactChanges} {r : Rendering} {rs done : List Rendering} {deleted : List Path}
  {place : List String}

theorem existing?_none_iff : existing? t p = .ok none ↔
    ∃ fault, t.look p = .error fault ∧ fault ≠ .nameTooLong := by
  unfold existing? Tree.hasEntry
  rcases t.look p with fault | _
  case ok => cases t.readText p <;> simp [Except.mapError, bind, Except.bind, pure, Except.pure]
  case error => cases fault <;> simp [Except.mapError, bind, Except.bind, pure, Except.pure]

theorem existing?_some_iff : existing? t p = .ok (some text) ↔
    ∃ content, t.look p = .ok (.file content) ∧ Utf8.decodeText content = .ok text := by
  unfold existing? Tree.hasEntry Tree.readText Tree.readBytes
  rcases t.look p with fault | ⟨_ | content⟩
  case ok.file =>
    cases hd : Utf8.decodeText content <;>
      simp [hd, Except.mapError, bind, Except.bind, pure, Except.pure]
  case ok.directory => simp [Except.mapError, bind, Except.bind]
  case error => cases fault <;> simp [Except.mapError, bind, Except.bind, pure, Except.pure]

theorem existing?_bytesAt_iff (ht : t.WellFormed) (hp : p.IsResolved) :
    existing? t p = .ok (some text) ↔ ∃ content, t.bytesAt p.parts = some content ∧
      (∀ name ∈ p.parts, ¬ Tree.isTooLong name) ∧ Utf8.decodeText content = .ok text := by
  simp only [existing?_some_iff, Tree.look_ok_iff ht hp, Tree.bytesAt_eq_some, and_assoc]

-- Other files and new directories do not change what is there for an artifact.
theorem existing?_mono (ht : t.WellFormed) (hu : u.WellFormed) (hp : p.IsResolved)
    (hd : ∀ {place}, t.get? place = some .directory → u.get? place = some .directory)
    (hb : u.bytesAt p.parts = t.bytesAt p.parts) (h : existing? u p = .ok old) :
    existing? t p = .ok old := by
  cases old
  case none =>
    obtain ⟨fault, hl, hn⟩ := existing?_none_iff.mp h
    refine existing?_none_iff.mpr <| Tree.look_error_mono ht hu hp hd (fun hg => ?_) hl hn
    rw [← Tree.bytesAt_eq_some] at hg ⊢
    rwa [hb]
  case some text =>
    rw [existing?_bytesAt_iff hu hp, hb] at h
    exact (existing?_bytesAt_iff ht hp).mpr h

theorem exec_store_ok : exec (store p text) t = (.ok (), u) ↔
    ∃ v, t.makeDirectories p.parent p.parent.parts.length = .ok v ∧ v.writeText p text = .ok u := by
  unfold store
  cases hd : t.makeDirectories p.parent p.parent.parts.length
  case error => simp [exec_bind, hd]
  case ok v => cases hw : v.writeText p text <;> simp [exec_bind, hd, hw]

theorem store_became (ht : t.WellFormed) (hp : p.IsResolved)
    (h : exec (store p text) t = (.ok (), u)) :
    Became t u (Function.update t.bytesAt p.parts <| some <| Utf8.encode text) := by
  obtain ⟨v, hd, hw⟩ := exec_store_ok.mp h
  have hv := Tree.makeDirectories_became ht hp.parent hd
  have hu := Tree.writeText_became hv.wellFormed hp hw
  rw [funext hv.bytesAt] at hu
  exact hv.trans hu

theorem store_short (hp : p.IsResolved) (h : exec (store p text) t = (.ok (), u)) :
    ∀ part ∈ p.parts, ¬ Tree.isTooLong part := by
  obtain ⟨v, _, hw⟩ := exec_store_ok.mp h
  exact Tree.writeText_short hp hw

-- Whether the artifact that is there already has its text.
def IsCurrent (t : Tree) (r : Rendering) : Prop :=
  existing? t r.path = .ok (some r.text)

theorem isCurrent_short (ht : t.WellFormed) (hp : r.path.IsResolved) (h : IsCurrent t r) :
    ∀ part ∈ r.path.parts, ¬ Tree.isTooLong part := by
  obtain ⟨content, _, hl, _⟩ := (existing?_bytesAt_iff ht hp).mp h
  exact hl

theorem exec_put_true (h : existing? t r.path = .ok old) :
    exec (put true c r) t = (.ok (c.noted r.path r.text old), t) := by
  unfold put write
  rw [exec_bind_of_ok (exec_get t), h, exec_bind_of_ok (exec_liftM _ _)]
  cases old
  case none => simp [ArtifactChanges.noted]
  case some old => by_cases ho : old = r.text <;> simp [ArtifactChanges.noted, ho]

theorem exec_put_true_ok (h : exec (put true c r) t = (.ok c', u)) :
    ∃ old, existing? t r.path = .ok old ∧ c' = c.noted r.path r.text old ∧ u = t := by
  cases he : existing? t r.path
  case error =>
    unfold put write at h
    rw [exec_bind_of_ok (exec_get t), he] at h
    cases h
  case ok old =>
    rw [exec_put_true he] at h
    cases h
    exact ⟨old, rfl, rfl, rfl⟩

theorem exec_put_false (h : exec (put false c r) t = (.ok c', u)) :
    ∃ old, existing? t r.path = .ok old ∧ c' = c.noted r.path r.text old ∧
      if old = some r.text then u = t else exec (store r.path r.text) t = (.ok (), u) := by
  unfold put write at h
  rw [exec_bind_of_ok (exec_get t)] at h
  obtain ⟨old, t₁, hl, h⟩ := exec_bind_ok.mp h
  obtain ⟨he, rfl⟩ := Prod.mk.inj <| (exec_liftM _ _).symm.trans hl
  refine ⟨old, he, ?_⟩
  by_cases ho : old = some r.text
  case pos =>
    obtain ⟨rfl, rfl⟩ : _ ∧ _ := by simpa [ho] using h
    simp [ArtifactChanges.noted, ho]
  case neg =>
    simp only [ho, if_false, Bool.not_false, if_true] at h ⊢
    obtain ⟨_, t₂, hs, h⟩ := exec_bind_ok.mp h
    cases old <;> cases h
    case none => exact ⟨rfl, hs⟩
    case some => simpa [ArtifactChanges.noted, Option.some_inj.not.mp ho] using hs

-- What holds of a tree since some renderings were put and some artifacts were deleted: all else is
-- as it was, but for new directories.
structure Since (t u : Tree) (done : List Rendering) (gone : List Path) : Prop where
  wellFormed : u.WellFormed
  directory : ∀ {place}, t.get? place = some .directory → u.get? place = some .directory
  current : ∀ {r}, r ∈ done → IsCurrent t r → u.bytesAt r.path.parts = t.bytesAt r.path.parts
  written : ∀ {r}, r ∈ done → ¬ IsCurrent t r →
    u.bytesAt r.path.parts = some (Utf8.encode r.text)
  short : ∀ {r}, r ∈ done → ∀ part ∈ r.path.parts, ¬ Tree.isTooLong part
  deleted : ∀ {p}, p ∈ gone → u.bytesAt p.parts = none
  kept : ∀ {place}, (∀ r ∈ done, r.path.parts ≠ place) → (∀ p ∈ gone, p.parts ≠ place) →
    u.bytesAt place = t.bytesAt place

namespace Since

theorem refl (ht : t.WellFormed) : Since t t [] [] where
  wellFormed := ht
  directory := id
  current := by simp
  written := by simp
  short := by simp
  deleted := by simp
  kept := by simp

theorem put {bytes : Option (List UInt8)} (h : Since t u done [])
    (hb : Became u v (Function.update u.bytesAt r.path.parts bytes))
    (hc : IsCurrent t r → bytes = t.bytesAt r.path.parts)
    (hw : ¬ IsCurrent t r → bytes = some (Utf8.encode r.text))
    (hl : ∀ part ∈ r.path.parts, ¬ Tree.isTooLong part)
    (hn : ∀ r' ∈ done, r'.path.parts ≠ r.path.parts) : Since t v (done ++ [r]) [] where
  wellFormed := hb.wellFormed
  directory := hb.directory ∘ h.directory
  current := by
    intro r' hm hc'
    cases List.mem_append.mp hm
    case inl hm => rw [hb.bytesAt, Function.update_of_ne (hn r' hm), h.current hm hc']
    case inr hm =>
      obtain rfl := List.mem_singleton.mp hm
      rw [hb.bytesAt, Function.update_self, hc hc']
  written := by
    intro r' hm hw'
    cases List.mem_append.mp hm
    case inl hm => rw [hb.bytesAt, Function.update_of_ne (hn r' hm), h.written hm hw']
    case inr hm =>
      obtain rfl := List.mem_singleton.mp hm
      rw [hb.bytesAt, Function.update_self, hw hw']
  short := by
    intro r' hm
    cases List.mem_append.mp hm
    case inl hm => exact h.short hm
    case inr hm => exact List.mem_singleton.mp hm ▸ hl
  deleted := by simp
  kept := by
    intro place hm _
    have hp : place ≠ r.path.parts := (hm r <| by simp).symm
    rw [hb.bytesAt, Function.update_of_ne hp]
    exact h.kept (fun r' hr' => hm r' <| List.mem_append_left _ hr') (by simp)

end Since

-- Putting renderings says of each what a look at the tree from before says.
theorem put_agrees (ht : t.WellFormed) (hs : Since t u done [])
    (hr : ∀ r ∈ rs, r.path.IsResolved)
    (hn : (done ++ rs).Pairwise fun r r' => r.path.parts ≠ r'.path.parts)
    (h : exec (rs.foldlM (put false) c) u = (.ok c', v)) :
    exec (rs.foldlM (put true) c) t = (.ok c', t) ∧ Since t v (done ++ rs) [] := by
  induction rs generalizing u done c
  case nil =>
    cases h
    simpa using hs
  case cons r rs hi =>
    have hr' : ∀ r ∈ rs, r.path.IsResolved := fun r hm => hr r <| List.mem_cons_of_mem _ hm
    have hp := hr r <| List.mem_cons_self ..
    have hd : ∀ r' ∈ done, r'.path.parts ≠ r.path.parts := fun r' hm =>
      (List.pairwise_append.mp hn).right.right r' hm r <| List.mem_cons_self ..
    rw [List.append_cons] at hn ⊢
    rw [List.foldlM_cons] at h ⊢
    obtain ⟨c₁, u₁, hf, h⟩ := exec_bind_ok.mp h
    obtain ⟨old, he, rfl, hst⟩ := exec_put_false hf
    have hb := hs.kept hd (by simp)
    have hold := existing?_mono ht hs.wellFormed hp hs.directory hb he
    have hc : IsCurrent t r ↔ old = some r.text := by simp [IsCurrent, hold]
    rw [exec_bind_of_ok <| exec_put_true hold]
    refine hi ?_ hr' hn h
    by_cases ho : old = some r.text
    case pos =>
      obtain rfl : u₁ = u := by simpa [ho] using hst
      have hu := Became.refl hs.wellFormed
      rw [← Function.update_eq_self r.path.parts u₁.bytesAt] at hu
      have hl := isCurrent_short ht hp <| hc.mpr ho
      exact hs.put hu (fun _ => hb) (fun hn => absurd (hc.mpr ho) hn) hl hd
    case neg =>
      rw [if_neg ho] at hst
      have hu := store_became hs.wellFormed hp hst
      exact hs.put hu (fun h => absurd (hc.mp h) ho) (fun _ => rfl) (store_short hp hst) hd

theorem put_changes (h : exec (rs.foldlM (put true) c) t = (.ok c', u)) :
    c'.deleted = c.deleted ∧ (c'.IsCalm ↔ c.IsCalm ∧ ∀ r ∈ rs, IsCurrent t r) := by
  induction rs generalizing c
  case nil =>
    cases h
    simp
  case cons r rs hi =>
    rw [List.foldlM_cons] at h
    obtain ⟨c₁, t₁, hp, hl⟩ := exec_bind_ok.mp h
    obtain ⟨old, he, rfl, rfl⟩ := exec_put_true_ok hp
    have ⟨hd, hc⟩ := hi hl
    refine ⟨hd.trans ArtifactChanges.noted_deleted, ?_⟩
    rw [hc, ArtifactChanges.isCalm_noted_iff]
    simp [IsCurrent, he, and_assoc]

end ArtifactWriter

end GraphqlArtifacts
