import GraphqlArtifacts.Proofs.Artifacts.Writes
import GraphqlArtifacts.Proofs.Text.Order

namespace GraphqlArtifacts.ArtifactWriter

open GraphqlArtifacts.Tree (Became)

variable {t u v : Tree} {p directory : Path} {suffix name : String} {names : List String}
  {written stale stale' dirs gone : List Path} {c c' : ArtifactChanges} {done : List Rendering}
  {onlyValidate : Bool} {e : FileError} {r : Rendering}

-- Whether a name in a directory is one of an artifact that was not written.
structure IsStale (t : Tree) (suffix : String) (written : List Path) (directory : Path)
    (name : String) : Prop where
  isFile : (t.bytesAt (directory.child name).parts).isSome
  short : ∀ part ∈ (directory.child name).parts, ¬ Tree.isTooLong part
  unwritten : directory.child name ∉ written
  suffix : name.endsWith suffix

theorem IsStale.isResolved (ht : t.WellFormed) (h : IsStale t suffix written directory name) :
    (directory.child name).IsResolved := by
  obtain ⟨content, hb⟩ := Option.isSome_iff_exists.mp h.isFile
  exact ht.dotDot_not_mem <| Tree.bytesAt_eq_some.mp hb

theorem IsStale.get?_directory (ht : t.WellFormed) (h : IsStale t suffix written directory name) :
    t.get? directory.parts = some .directory := by
  obtain ⟨content, hb⟩ := Option.isSome_iff_exists.mp h.isFile
  exact ht.parent <| Tree.bytesAt_eq_some.mp hb

theorem staleIn_error (h : staleIn t suffix written directory = .error e) :
    t.walk [] directory.parts = .error .nameTooLong := by
  unfold staleIn at h
  split at h
  case h_1 => split at h <;> cases h
  case h_2 hw => exact hw
  case h_3 => cases h

theorem staleIn_of_tooLong (h : t.walk [] directory.parts = .error .nameTooLong) :
    staleIn t suffix written directory = .error ⟨.nameTooLong, directory⟩ := by
  rw [staleIn, h]

theorem staleIn_ok (ht : t.WellFormed) (hd : directory.IsResolved)
    (h : staleIn t suffix written directory = .ok stale) :
    ∃ names : List String, stale = names.map directory.child ∧ names.Nodup ∧
      (names.Pairwise fun a b => inOrder a b) ∧
      ∀ name, name ∈ names ↔ IsStale t suffix written directory name := by
  have hnone (hn : t.walk [] directory.parts ≠ .ok directory.parts ∨
      t.get? directory.parts ≠ some .directory) (name : String) :
      ¬ IsStale t suffix written directory name := by
    intro hs
    have hg := hs.get?_directory ht
    have hw := Tree.walk_of_get? ht hd hg fun part hm => hs.short part <| List.mem_append_left _ hm
    exact hn.elim (absurd hw) (absurd hg)
  unfold staleIn at h
  split at h
  case h_1 place hw =>
    obtain rfl : place = directory.parts := by simpa using (Tree.walk_ok hd hw).left
    split at h <;> cases h
    case isFalse hg => exact ⟨[], rfl, by simp, by simp, by simpa using hnone (.inr hg)⟩
    case isTrue hg =>
      rw [List.filter_map]
      refine ⟨_, rfl, ?_, ?_, fun name => ?_⟩
      · exact ((sortTexts_perm _).nodup_iff.mpr <| Tree.nodup_namesIn ht).filter _
      · exact (sortTexts_inOrder _).filter _
      · have hc := Tree.isFile_iff (p := directory.child name) ht
        simp only [List.mem_filter, (sortTexts_perm _).mem_iff, Tree.mem_namesIn ht,
          Function.comp_apply, Bool.and_eq_true, Bool.not_eq_true', Path.name_child]
        constructor
        case mp =>
          intro ⟨⟨e, he⟩, ⟨hwr, hf⟩, hsf⟩
          have hr : (directory.child name).IsResolved := ht.dotDot_not_mem he
          have ⟨hb, hl⟩ := (hc hr).mp hf
          exact ⟨hb, hl, by simpa using hwr, hsf⟩
        case mpr =>
          intro hs
          obtain ⟨content, hb⟩ := Option.isSome_iff_exists.mp hs.isFile
          refine ⟨⟨_, Tree.bytesAt_eq_some.mp hb⟩, ⟨by simpa using hs.unwritten, ?_⟩, hs.suffix⟩
          exact (hc <| hs.isResolved ht).mpr ⟨hs.isFile, hs.short⟩
  case h_2 => cases h
  case h_3 hn hw =>
    cases h
    exact ⟨[], rfl, by simp, by simp, by simpa using hnone <| .inl <| by simp [hw]⟩

theorem remove_became (ht : t.WellFormed) (hp : p.IsResolved) (hb : (t.bytesAt p.parts).isSome)
    (hl : ∀ part ∈ p.parts, ¬ Tree.isTooLong part) :
    Became t (remove t p) (Function.update t.bytesAt p.parts none) := by
  obtain ⟨content, hb⟩ := Option.isSome_iff_exists.mp hb
  have hg := Tree.bytesAt_eq_some.mp hb
  rw [remove, Tree.walk_of_get? ht hp hg hl]
  exact .erase ht hg

namespace Since

theorem remove (h : Since t u done gone)
    (hb : Became u v (Function.update u.bytesAt p.parts none))
    (hn : ∀ r ∈ done, r.path.parts ≠ p.parts) : Since t v done (gone ++ [p]) where
  wellFormed := hb.wellFormed
  directory := hb.directory ∘ h.directory
  current hm hc := by rw [hb.bytesAt, Function.update_of_ne (hn _ hm), h.current hm hc]
  written hm hw := by rw [hb.bytesAt, Function.update_of_ne (hn _ hm), h.written hm hw]
  short := h.short
  deleted := by
    intro p' hm
    rw [hb.bytesAt]
    by_cases hp : p'.parts = p.parts
    case pos => simp [hp]
    case neg =>
      have hm := (List.mem_append.mp hm).resolve_right fun hm =>
        hp <| congrArg Path.parts <| List.mem_singleton.mp hm
      rw [Function.update_of_ne hp, h.deleted hm]
  kept := by
    intro place hm hg
    have hp : place ≠ p.parts := (hg p <| by simp).symm
    rw [hb.bytesAt, Function.update_of_ne hp]
    exact h.kept hm fun p' hp' => hg p' <| List.mem_append_left _ hp'

-- All of some different files can be removed one after the other.
theorem removeAll (h : Since t u done gone) (hn : stale.Pairwise fun p p' => p.parts ≠ p'.parts)
    (hr : ∀ p ∈ stale, p.IsResolved) (hf : ∀ p ∈ stale, (u.bytesAt p.parts).isSome)
    (hl : ∀ p ∈ stale, ∀ part ∈ p.parts, ¬ Tree.isTooLong part)
    (hd : ∀ p ∈ stale, ∀ r ∈ done, r.path.parts ≠ p.parts) :
    Since t (stale.foldl ArtifactWriter.remove u) done (gone ++ stale) := by
  induction stale generalizing u gone
  case nil => simpa using h
  case cons p stale hi =>
    rw [List.pairwise_cons] at hn
    simp only [List.forall_mem_cons] at hr hf hl hd
    have hb := remove_became h.wellFormed hr.left hf.left hl.left
    rw [List.append_cons]
    refine hi (h.remove hb hd.left) hn.right hr.right (fun p' hm => ?_) hl.right hd.right
    rw [hb.bytesAt, Function.update_of_ne (hn.left p' hm).symm]
    exact hf.right p' hm

end Since

theorem IsStale.ne_of_mem (h : IsStale t suffix (done.map Rendering.path) directory name)
    (hm : r ∈ done) (hr : r.path.root = directory.root) :
    r.path.parts ≠ (directory.child name).parts := by
  intro he
  exact h.unwritten <| List.mem_map.mpr ⟨r, hm, Path.eq_of_parts hr he⟩

-- All that is stale in a directory can be removed.
theorem Since.removeStale (hs : Since t u done gone) (hd : directory.IsResolved)
    (hr : ∀ r ∈ done, r.path.root = directory.root)
    (h : staleIn u suffix (done.map Rendering.path) directory = .ok stale) :
    Since t (stale.foldl ArtifactWriter.remove u) done (gone ++ stale) := by
  obtain ⟨names, rfl, hn, _, hm⟩ := staleIn_ok hs.wellFormed hd h
  refine hs.removeAll ?_ ?_ ?_ ?_ ?_ <;> simp only [List.pairwise_map, List.forall_mem_map, hm]
  · exact hn.imp fun hne => by simpa [Path.child] using hne
  · exact fun name h => h.isResolved hs.wellFormed
  · exact fun name h => h.isFile
  · exact fun name h => h.short
  · exact fun name h r hmr => h.ne_of_mem hmr <| hr r hmr

-- A directory that nothing was deleted in has the same stale artifacts as before.
theorem Since.isStale_iff (hs : Since t u done gone)
    (hr : ∀ r ∈ done, r.path.root = directory.root)
    (hg : ∀ p ∈ gone, p.parent.parts ≠ directory.parts) :
    IsStale u suffix (done.map Rendering.path) directory name ↔
      IsStale t suffix (done.map Rendering.path) directory name := by
  have hb (hn : ∀ r ∈ done, r.path.parts ≠ (directory.child name).parts) :
      u.bytesAt (directory.child name).parts = t.bytesAt (directory.child name).parts :=
    hs.kept hn fun p hm he => hg p hm <| by simp [Path.parent, he, Path.child]
  constructor
  case mp =>
    intro h
    have hb := hb fun r hm => h.ne_of_mem hm (hr r hm)
    exact ⟨hb ▸ h.isFile, h.short, h.unwritten, h.suffix⟩
  case mpr =>
    intro h
    have hb := hb fun r hm => h.ne_of_mem hm (hr r hm)
    exact ⟨hb.symm ▸ h.isFile, h.short, h.unwritten, h.suffix⟩

theorem Since.staleIn_eq (ht : t.WellFormed) (hs : Since t u done gone)
    (hd : directory.IsResolved) (hr : ∀ r ∈ done, r.path.root = directory.root)
    (hg : ∀ p ∈ gone, p.parent.parts ≠ directory.parts)
    (h : staleIn u suffix (done.map Rendering.path) directory = .ok stale) :
    staleIn t suffix (done.map Rendering.path) directory = .ok stale := by
  cases hx : staleIn t suffix (done.map Rendering.path) directory
  case error =>
    have hw := Tree.walk_mono hs.directory (staleIn_error hx) (by simp) (by simp)
    simp [staleIn_of_tooLong hw] at h
  case ok stale' =>
    obtain ⟨names, rfl, hn, ho, hm⟩ := staleIn_ok hs.wellFormed hd h
    obtain ⟨names', rfl, hn', ho', hm'⟩ := staleIn_ok ht hd hx
    have hp : names'.Perm names := by
      rw [List.perm_ext_iff_of_nodup hn' hn]
      intro name
      rw [hm, hm', hs.isStale_iff hr hg]
    rw [textBefore_isOrder.eq_of_pairwise ho' ho hp]

theorem exec_deleteStale_ok :
    exec (deleteStale onlyValidate suffix written c directory) t = (.ok c', u) ↔
    ∃ stale, staleIn t suffix written directory = .ok stale ∧
      c' = { c with deleted := c.deleted ++ stale } ∧
      u = if onlyValidate then t else stale.foldl remove t := by
  unfold deleteStale
  rw [exec_bind_of_ok <| exec_get t]
  cases h : staleIn t suffix written directory
  case error => simp [exec_bind, Except.mapError]
  case ok stale =>
    cases onlyValidate <;>
      simp [exec_bind, exec_map, Except.map, Except.mapError, eq_comm (a := c'), eq_comm (a := u)]

-- Deleting what is stale, one directory after the other, finds in each what a look at the tree from
-- before finds.
theorem delete_agrees (ht : t.WellFormed) (hs : Since t u done gone)
    (hd : ∀ d ∈ dirs, d.IsResolved) (hr : ∀ d ∈ dirs, ∀ r ∈ done, r.path.root = d.root)
    (hn : dirs.Pairwise fun d d' => d.parts ≠ d'.parts)
    (hg : ∀ d ∈ dirs, ∀ p ∈ gone, p.parent.parts ≠ d.parts)
    (h : exec (dirs.foldlM (deleteStale false suffix <| done.map Rendering.path) c) u =
      (.ok c', v)) :
    exec (dirs.foldlM (deleteStale true suffix <| done.map Rendering.path) c) t = (.ok c', t) ∧
    ∃ more, c' = { c with deleted := c.deleted ++ more } ∧ Since t v done (gone ++ more) ∧
      ∀ p ∈ more, (t.bytesAt p.parts).isSome := by
  induction dirs generalizing u gone c
  case nil =>
    cases h
    exact ⟨rfl, [], by simp, by simpa using hs, by simp⟩
  case cons d dirs hi =>
    rw [List.pairwise_cons] at hn
    simp only [List.forall_mem_cons] at hd hr hg
    rw [List.foldlM_cons] at h ⊢
    obtain ⟨c₁, u₁, hx, hl⟩ := exec_bind_ok.mp h
    obtain ⟨stale, hf, rfl, rfl⟩ := exec_deleteStale_ok.mp hx
    have hy := hs.staleIn_eq ht hd.left hr.left hg.left hf
    have hst := hs.removeStale hd.left hr.left hf
    obtain ⟨names, rfl, _, _, hm⟩ := staleIn_ok hs.wellFormed hd.left hf
    have hg' : ∀ d' ∈ dirs, ∀ p ∈ gone ++ names.map d.child, p.parent.parts ≠ d'.parts := by
      intro d' hd' p hp
      cases List.mem_append.mp hp
      case inl hp => exact hg.right d' hd' p hp
      case inr hp =>
        obtain ⟨name, _, rfl⟩ := List.mem_map.mp hp
        simpa using hn.left d' hd'
    obtain ⟨hv, more, hc, hsv, hb⟩ := hi hst hd.right hr.right hn.right hg' hl
    rw [exec_bind_of_ok <| exec_deleteStale_ok.mpr ⟨_, hy, rfl, rfl⟩]
    refine ⟨hv, names.map d.child ++ more, by simp [hc], by simpa using hsv, fun p hp => ?_⟩
    cases List.mem_append.mp hp
    case inr hp => exact hb p hp
    case inl hp =>
      obtain ⟨name, hname, rfl⟩ := List.mem_map.mp hp
      exact ((hs.isStale_iff hr.left hg.left).mp <| (hm name).mp hname).isFile

end GraphqlArtifacts.ArtifactWriter
