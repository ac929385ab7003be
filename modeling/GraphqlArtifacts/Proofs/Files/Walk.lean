import GraphqlArtifacts.Proofs.Files.Path
import GraphqlArtifacts.Proofs.Files.Tree
import GraphqlArtifacts.Proofs.Text.Utf8

namespace GraphqlArtifacts

namespace Tree

variable {t u : Tree} {place here parts : List String} {name text : String} {e : Entry}
  {content : List UInt8} {p : Path} {fault : FileFault} {r : Except FileFault (List String)}

-- Directories that are added do not change where names lead, once they lead somewhere.
theorem walk_mono (hd : ∀ {place}, t.get? place = some .directory → u.get? place = some .directory)
    (h : t.walk here parts = r) (hn : r ≠ .error .notFound) (hf : r ≠ .error .notDirectory) :
    u.walk here parts = r := by
  induction parts generalizing here
  case nil => exact h
  case cons part parts hi =>
    unfold walk at h ⊢
    rcases hg : t.get? here with _ | ⟨_ | _⟩ <;> simp only [hg] at h
    case none => exact absurd h.symm hn
    case some.file => exact absurd h.symm hf
    case some.directory =>
      simp only [hd hg]
      by_cases hp : part = ".."
      case pos =>
        simp only [hp, if_true] at h ⊢
        exact hi h
      case neg =>
        by_cases hl : isTooLong part
        case pos => simpa [hp, hl] using h
        case neg =>
          simp only [hp, hl, if_false] at h ⊢
          exact hi h

-- A way goes through places with fewer names than it has itself.
theorem walk_congr {size : Nat} (h : ∀ above, above.length < size → t.get? above = u.get? above)
    (hs : here.length + parts.length ≤ size) : t.walk here parts = u.walk here parts := by
  induction parts generalizing here
  case nil => rfl
  case cons part parts hi =>
    rw [List.length_cons] at hs
    rw [walk, walk, h here (by omega)]
    have hb : t.walk here.dropLast parts = u.walk here.dropLast parts :=
      hi <| by rw [List.length_dropLast]; omega
    have hd : t.walk (here ++ [part]) parts = u.walk (here ++ [part]) parts :=
      hi <| by rw [List.length_append, List.length_singleton]; omega
    rw [hb, hd]

theorem walk_append {more : List String} :
    t.walk here (parts ++ more) = (t.walk here parts).bind (t.walk · more) := by
  induction parts generalizing here
  case nil => rfl
  case cons part parts hi =>
    simp only [List.cons_append, walk]
    rcases t.get? here with _ | ⟨_ | _⟩
    case none => rfl
    case some.file => rfl
    case some.directory =>
      dsimp only
      split
      case isTrue => exact hi
      case isFalse =>
        split
        case isTrue => rfl
        case isFalse => exact hi

theorem walk_ok (hm : ".." ∉ parts) (h : t.walk here parts = .ok place) :
    place = here ++ parts ∧ ∀ name ∈ parts, ¬ isTooLong name := by
  induction parts generalizing here
  case nil =>
    cases h
    simp
  case cons part parts hi =>
    simp only [List.mem_cons, not_or] at hm
    unfold walk at h
    rcases hg : t.get? here with _ | ⟨_ | _⟩ <;> simp only [hg, reduceCtorEq] at h
    by_cases hl : isTooLong part <;> simp only [Ne.symm hm.left, hl, if_true, if_false] at h
    case pos => cases h
    case neg =>
      have ⟨hp, hn⟩ := hi hm.right h
      exact ⟨by simp [hp], by simpa [hl] using hn⟩

-- A way without symbolic links leads where its names do.
theorem walk_eq_foldParents (h : t.walk [] parts = .ok place) : place = Path.foldParents parts := by
  have hgo : ∀ (parts here : List String), t.walk here parts = .ok place →
      place = parts.foldl (fun done part => if part = ".." then done.dropLast else done ++ [part])
        here := by
    intro parts
    induction parts
    case nil =>
      intro here h
      cases h
      rfl
    case cons part parts hi =>
      intro here h
      unfold walk at h
      rcases hg : t.get? here with _ | ⟨_ | _⟩ <;> simp only [hg, reduceCtorEq] at h
      by_cases hp : part = ".."
      case pos =>
        rw [if_pos hp] at h
        simpa [hp] using hi _ h
      case neg =>
        by_cases hl : isTooLong part <;> simp only [hp, hl, if_true, if_false] at h
        case pos => cases h
        case neg => simpa [hp] using hi _ h
  exact hgo parts [] h

theorem walk_child (hp : p.IsResolved) (h : t.walk [] (p.child name).parts = .ok place) :
    place = p.parts.dropLast ∨ place = p.parts ++ [name] := by
  rw [Path.child, walk_append] at h
  rcases hw : t.walk [] p.parts with fault | here <;> rw [hw] at h
  case error => cases h
  case ok =>
    obtain rfl : here = p.parts := by simpa using (walk_ok hp hw).left
    have h : t.walk p.parts [name] = .ok place := h
    unfold walk at h
    split at h
    case h_3 =>
      split at h
      case isTrue  => exact .inl (Except.ok.inj h).symm
      case isFalse =>
        split at h
        case isTrue  => cases h
        case isFalse => exact .inr (Except.ok.inj h).symm
    all_goals cases h

theorem walk_of_directories (hm : ".." ∉ parts) (hl : ∀ name ∈ parts, ¬ isTooLong name)
    (hd : ∀ above below, parts = above ++ below → below ≠ [] →
      t.get? (here ++ above) = some .directory) :
    t.walk here parts = .ok (here ++ parts) := by
  induction parts generalizing here
  case nil => simp [walk]
  case cons part parts hi =>
    simp only [List.mem_cons, not_or] at hm
    have hg : t.get? here = some .directory := by simpa using hd [] (part :: parts)
    unfold walk
    simp only [hg, Ne.symm hm.left, hl part (by simp), if_false]
    have hd' (above below : List String) (he : parts = above ++ below) (hb : below ≠ []) :
        t.get? (here ++ [part] ++ above) = some .directory := by
      simpa using hd (part :: above) below (by simp [he]) hb
    simpa using hi hm.right (fun name hn => hl name <| by simp [hn]) hd'

theorem walk_of_get? (ht : t.WellFormed) (hp : p.IsResolved) (hg : t.get? p.parts = some e)
    (hl : ∀ name ∈ p.parts, ¬ isTooLong name) : t.walk [] p.parts = .ok p.parts :=
  walk_of_directories hp hl fun _ _ he hb => ht.directory_above (he ▸ hg) hb

theorem look_ok_iff (ht : t.WellFormed) (hp : p.IsResolved) :
    t.look p = .ok e ↔ t.get? p.parts = some e ∧ ∀ name ∈ p.parts, ¬ isTooLong name := by
  constructor
  case mp =>
    intro h
    unfold look at h
    cases hw : t.walk [] p.parts <;> simp only [hw, bind, Except.bind] at h
    case error => cases h
    case ok place =>
      have ⟨hq, hl⟩ := walk_ok hp hw
      cases hg : t.get? place <;> simp only [hg] at h <;> cases h
      exact ⟨by simpa [hq] using hg, hl⟩
  case mpr =>
    intro ⟨hg, hl⟩
    simp [look, walk_of_get? ht hp hg hl, hg, bind, Except.bind]

theorem isFile_iff (ht : t.WellFormed) (hp : p.IsResolved) : t.isFile p ↔
    (t.bytesAt p.parts).isSome ∧ ∀ name ∈ p.parts, ¬ isTooLong name := by
  have hi : t.isFile p ↔ ∃ content, t.look p = .ok (.file content) := by
    unfold isFile
    rcases t.look p with _ | ⟨_ | _⟩ <;> simp
  simp [hi, look_ok_iff ht hp, Option.isSome_iff_exists, bytesAt_eq_some]

theorem look_of_readBytes (h : t.readBytes p = .ok content) : t.look p = .ok (.file content) := by
  rw [readBytes] at h
  split at h
  case h_1 hl => rw [hl, Except.ok.inj h]
  all_goals cases h

theorem hasEntry_error_iff {e : FileError} :
    t.hasEntry p = .error e ↔ t.look p = .error .nameTooLong ∧ e = ⟨.nameTooLong, p⟩ := by
  unfold hasEntry
  split
  case h_1 h => simp [h]
  case h_2 h => simp [h, eq_comm]
  case h_3 hn h => simpa [h] using fun he => (hn he).elim

-- A character takes a byte or more.
theorem isTooLong_of_length (h : maxNameLength < name.length) : isTooLong name :=
  decide_eq_true <| Nat.lt_of_lt_of_le h <|
    String.length_toList ▸ Utf8.length_le_encodeChars name.toList

theorem look_tooLong_iff : t.look p = .error .nameTooLong ↔
    t.walk [] p.parts = .error .nameTooLong := by
  unfold look
  cases t.walk [] p.parts
  case error => simp [bind, Except.bind]
  case ok place => cases hg : t.get? place <;> simp [hg, bind, Except.bind]

-- A name can only be too long in a directory that is there.
theorem look_child_tooLong (hw : t.walk [] p.parts = .ok place)
    (hd : t.get? place = some .directory) (hn : name ≠ "..") (hl : isTooLong name) :
    t.look (p.child name) = .error .nameTooLong := by
  have hc : t.walk place [name] = .error .nameTooLong := by simp [walk, hd, hn, hl]
  rw [look_tooLong_iff, Path.child, walk_append, hw]
  exact hc

-- A path that leads nowhere in a tree did so before directories and other files were added.
theorem look_error_mono (ht : t.WellFormed) (hu : u.WellFormed) (hp : p.IsResolved)
    (hd : ∀ {place}, t.get? place = some .directory → u.get? place = some .directory)
    (hf : ∀ {content}, t.get? p.parts = some (.file content) →
      u.get? p.parts = some (.file content))
    (h : u.look p = .error fault) (hn : fault ≠ .nameTooLong) :
    ∃ fault', t.look p = .error fault' ∧ fault' ≠ .nameTooLong := by
  cases hl : t.look p
  case error fault' =>
    refine ⟨fault', rfl, ?_⟩
    rintro rfl
    have hw := walk_mono hd (look_tooLong_iff.mp hl) (by simp) (by simp)
    exact hn <| Except.error.inj <| h.symm.trans <| look_tooLong_iff.mpr hw
  case ok e =>
    have ⟨hg, hs⟩ := (look_ok_iff ht hp).mp hl
    have hg : u.get? p.parts = some e := by
      cases e
      case directory => exact hd hg
      case file      => exact hf hg
    simp [(look_ok_iff hu hp).mpr ⟨hg, hs⟩] at h

theorem makeDirectory_became (ht : t.WellFormed) (hp : p.IsResolved)
    (h : t.makeDirectory p = .ok u) : Became t u t.bytesAt := by
  unfold makeDirectory at h
  cases hw : t.walk [] p.parts <;> simp only [hw] at h
  case error => cases h
  case ok place =>
    obtain rfl : place = p.parts := by simpa using (walk_ok hp hw).left
    rcases hg : t.get? p.parts with _ | ⟨_ | _⟩ <;> simp only [hg] at h
    case some.directory => exact Except.ok.inj h ▸ .refl ht
    case some.file => cases h
    case none =>
      rcases hd : t.get? p.parts.dropLast with _ | ⟨_ | _⟩ <;> simp only [hd] at h <;> cases h
      have hb := Became.set (e := .directory) ht (by rintro hn; simp [hn] at hg) hp hd (by simp [hg])
      have hn : t.bytesAt p.parts = none := by simp [bytesAt, hg]
      rwa [Entry.content?, ← hn, Function.update_eq_self] at hb

theorem makeDirectories_became {n : Nat} (ht : t.WellFormed) (hp : p.IsResolved)
    (h : t.makeDirectories p n = .ok u) : Became t u t.bytesAt := by
  induction n generalizing p u
  case zero =>
    unfold makeDirectories at h
    cases hm : t.makeDirectory p <;> simp only [hm, Except.mapError] at h <;> cases h
    exact makeDirectory_became ht hp hm
  case succ n hi =>
    unfold makeDirectories at h
    split at h
    case h_1 hm =>
      cases h
      exact makeDirectory_became ht hp hm
    case h_2 =>
      cases hd : t.makeDirectories p.parent n <;> simp only [hd, bind, Except.bind] at h
      case error => cases h
      case ok v =>
        have hv := hi hp.parent hd
        cases hm : v.makeDirectory p <;> simp only [hm, Except.mapError] at h <;> cases h
        have hb := makeDirectory_became hv.wellFormed hp hm
        rw [funext hv.bytesAt] at hb
        exact hv.trans hb
    case h_3 => cases h

theorem writeText_became (ht : t.WellFormed) (hp : p.IsResolved) (h : t.writeText p text = .ok u) :
    Became t u (Function.update t.bytesAt p.parts <| some <| Utf8.encode text) := by
  unfold writeText at h
  cases hw : t.walk [] p.parts <;> simp only [hw] at h
  case error => cases h
  case ok place =>
    obtain rfl : place = p.parts := by simpa using (walk_ok hp hw).left
    split at h <;> cases h
    case h_2 hd hg =>
      exact .set (e := .file _) ht (by rintro hn; simp [hn] at hg) hp hd hg

theorem writeText_short (hp : p.IsResolved) (h : t.writeText p text = .ok u) :
    ∀ name ∈ p.parts, ¬ isTooLong name := by
  unfold writeText at h
  cases hw : t.walk [] p.parts <;> simp only [hw] at h
  case error => cases h
  case ok place => exact (walk_ok hp hw).right

theorem mem_namesIn (ht : t.WellFormed) :
    name ∈ t.namesIn place ↔ ∃ e, t.get? (place ++ [name]) = some e := by
  simp only [namesIn, List.mem_filterMap, Prod.exists]
  constructor
  case mp =>
    intro ⟨q, e, hm, hq⟩
    obtain rfl | ⟨above, last, rfl⟩ := q.eq_nil_or_concat <;> simp at hq
    obtain ⟨rfl, rfl⟩ := hq
    exact ⟨e, by simpa using (ht.mem_entries_iff.mp hm).right⟩
  case mpr =>
    intro ⟨e, hg⟩
    exact ⟨_, e, ht.mem_entries_iff.mpr ⟨by simp, hg⟩, by simp⟩

theorem nodup_namesIn (ht : t.WellFormed) : (t.namesIn place).Nodup := by
  have hp : t.entries.Pairwise fun entry other => entry.1 ≠ other.1 := List.pairwise_map.mp ht.nodup
  refine List.Pairwise.filterMap _ ?_ hp
  rintro ⟨q, _⟩ ⟨q', _⟩ hn name hq _ hq' rfl
  obtain rfl | ⟨above, last, rfl⟩ := q.eq_nil_or_concat <;> simp at hq
  obtain rfl | ⟨above', last', rfl⟩ := q'.eq_nil_or_concat <;> simp at hq'
  simp [hq, hq'] at hn

end Tree

end GraphqlArtifacts
