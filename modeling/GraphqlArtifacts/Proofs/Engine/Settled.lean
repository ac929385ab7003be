import GraphqlArtifacts.Proofs.Engine.Journal
import GraphqlArtifacts.Proofs.Text.Order

namespace GraphqlArtifacts

open EngineState

namespace Watchman

variable {σ : Type} {w : World σ} {base : Path} {watches watches' : Watches} {s s' : Scene σ}
  {v : Watch} {d : Data} {files : List String} {r : QueryResult}

theorem watchProject_kept (hs : ∀ d ∈ watches, Answered w d.1 d.2)
    (h : exec (watchProject w.service base) (watches, s) = (.ok v, (watches', s'))) :
    watches'.find? (·.1 == base) = some (base, v) ∧ Answered w base v := by
  obtain ⟨hf, rfl, _⟩ | ⟨hf, rfl, answer, ha, hv⟩ := watchProject_ok h
  · exact ⟨hf, hs _ <| List.mem_of_find?_eq_some hf⟩
  · exact ⟨by simp [hf], s, s', answer, ha, hv⟩

theorem names_sorted (h : names d = .ok files) : files.Pairwise fun a b => inOrder a b := by
  unfold names at h
  split at h <;> cases h
  exact sortTexts_inOrder _

theorem resultOf_sorted (h : resultOf d = .ok r) : r.files.Pairwise fun a b => inOrder a b := by
  simp only [resultOf, bind, Except.bind] at h
  repeat' split at h
  all_goals cases h
  exact names_sorted ‹_›

end Watchman

namespace Engine

variable {σ : Type} {w : World σ} {accepts : Acceptance} {journal : Journal σ} {p : Plan}
  {s s₁ s' : EngineState σ} {name n : String} {kept : String → Prop} {set : FileSet} {e : Data}
  {sets : List (String × FileSet)} {names : List String}

-- A step that has nothing to do with some sets: their times and documents stay, no watch is lost,
-- and nothing that was recorded is forgotten.
structure Spares (w : World σ) (journal : Journal σ) (kept : String → Prop)
    (s s' : EngineState σ) : Prop where
  later : Later w journal (s.watches, s.scene) (s'.watches, s'.scene)
  clock : ∀ n, kept n → Data.lookup n s'.clocks = Data.lookup n s.clocks
  documents : ∀ n, kept n → Data.lookup n s'.documents = Data.lookup n s.documents

instance : IsPreorder (EngineState σ) (Spares w journal kept) where
  refl _ := ⟨refl_of _ _, fun _ _ => rfl, fun _ _ => rfl⟩
  trans _ _ _ h₁ h₂ :=
    ⟨trans_of _ h₁.later h₂.later, fun n hn => (h₂.clock n hn).trans <| h₁.clock n hn,
      fun n hn => (h₂.documents n hn).trans <| h₁.documents n hn⟩

theorem talk_spares {t : Watchman.Talk (Scene σ) α} (ht : Keeps (Later w journal) t) :
    Keeps (Spares w journal kept) (talk t) :=
  fun s => ⟨ht (s.watches, s.scene), fun _ _ => rfl, fun _ _ => rfl⟩

theorem reading_spares (hw : Faithful w p accepts journal) (f : Tree → Except EngineFault α) :
    Keeps (Spares w journal kept) (reading w f) := by
  intro s
  rw [exec_reading]
  cases f s.scene.tree
  case error => exact refl_of _ _
  case ok    => exact ⟨(hw.pass s.scene).later _, fun _ _ => rfl, fun _ _ => rfl⟩

theorem allows_spares (hw : Faithful w p accepts journal) (hn : ¬ kept n) :
    Allows w (Spares w journal kept) n where
  query _ _ _ := talk_spares <| Watchman.query_later hw
  clock _ := talk_spares <| Watchman.clock_later hw
  note _ _ := ⟨refl_of _ _, fun _ hk => Data.lookup_insert_of_ne fun h => hn <| h ▸ hk,
    fun _ _ => rfl⟩
  reading := reading_spares hw

theorem parse_spares (hw : Faithful w p accepts journal) (hn : ¬ kept n) :
    Keeps (Spares w journal kept) (parse w p n) := by
  unfold parse
  split
  · exact .throw _
  · refine .bind ((allows_spares hw hn).readSet _) fun docs => .bind (fun _ => ?_) fun _ =>
      .bind (fun _ => ⟨refl_of _ _, fun _ _ => rfl, fun _ _ => rfl⟩) fun _ => .pure _
    exact ⟨refl_of _ _, fun _ _ => rfl, fun _ hk => Data.lookup_insert_of_ne fun h => hn <| h ▸ hk⟩

theorem Spares.ofWrote (h : Wrote names s s') : Spares w journal kept s s' where
  later := by
    rw [h.watches]
    exact ⟨List.prefix_rfl, id, h.others ▸ id⟩
  clock := by simp [h.clocks]
  documents := by simp [h.documents]

-- All watches that are kept were given by the service.
def Sound (w : World σ) (s : EngineState σ) : Prop :=
  ∀ d ∈ s.watches, Answered w d.1 d.2

theorem Sound.spares (hs : Sound w s) (h : Spares w journal kept s s') : Sound w s' :=
  h.later.answered hs

-- The documents of a set are those of each tree that agrees with all that there were since the time
-- of the set. So no change since then was missed, as long as the next answer tells of none.
structure Settled (w : World σ) (accepts : Acceptance) (journal : Journal σ) (name : String)
    (set : FileSet) (e : Data) (s : EngineState σ) (c : String) (docs : List DocumentFile) :
    Prop where
  watch : ∃ v, s.watches.find? (·.1 == set.base) = some (set.base, v)
  clock : Data.lookup name s.clocks = some c
  documents : Data.lookup name s.documents = some docs
  began : ∃ t, journal s.scene.others c t
  covers : ∀ t', (∀ t, journal s.scene.others c t → t.Agree accepts set.base e t') →
    set.Documents accepts e t' docs

variable {c : String} {docs : List DocumentFile} {files chosen : List String} {t' : Tree}

theorem Settled.spares (h : Settled w accepts journal name set e s c docs)
    (hs : Spares w journal kept s s') (hn : kept name) :
    Settled w accepts journal name set e s' c docs where
  watch := by
    have ⟨v, hv⟩ := h.watch
    exact ⟨v, hs.later.find? hv⟩
  clock := (hs.clock _ hn).trans h.clock
  documents := (hs.documents _ hn).trans h.documents
  began := h.began.imp fun _ => hs.later.journal
  covers t' ha := h.covers t' fun t ht => ha t <| hs.later.journal ht

-- What is read is as in each tree with the same content of the file as in all since a time.
theorem reading_recorded (hw : Faithful w p accepts journal) {f : Tree → Except EngineFault α} {a : α}
    (h : exec (reading w f) s = (.ok a, s')) (hj : ∃ t, journal s.scene.others c t) :
    f s.scene.tree = .ok a ∧ journal s'.scene.others c s.scene.tree := by
  have ⟨hf, hs⟩ := exec_reading_ok.mp h
  have ⟨t, ht⟩ := hj
  exact ⟨hf, hs ▸ (hw.pass s.scene).found ht⟩

theorem listFiles_lists (hw : Faithful w p accepts journal) (hs : Sound w s)
    (hm : (name, set) ∈ p.fileSets) (hf : set.files = none) (he : set.expression = some e)
    (h : exec (listFiles w p name set) s = (.ok files, s')) :
    ∃ c t, (∃ v, s'.watches.find? (·.1 == set.base) = some (set.base, v)) ∧
      Data.lookup name s'.clocks = some c ∧ journal s'.scene.others c t ∧
      t.Lists accepts set.base e files := by
  simp only [listFiles, hf, he] at h
  split at h
  case isTrue => simp at h
  case isFalse =>
    have ⟨r, s₁, hq, h⟩ := exec_bind_ok.mp h
    cases h
    have ⟨v, s₂, hp, ha⟩ := Watchman.query_ok (talk_ok hq).left
    have ⟨hv, hb⟩ := Watchman.watchProject_kept hs hp
    have ⟨hd, hm, hj⟩ := hw.all hm he hb ha
    have ⟨_, _, hr⟩ := ha
    exact ⟨r.clock, s₂.tree, ⟨v, hv⟩, Data.lookup_insert_self, hj,
      hd, Watchman.resultOf_sorted hr, hm⟩

theorem keepMentioning_eq (hw : Faithful w p accepts journal)
    (h : exec (keepMentioning w set files) s = (.ok chosen, s'))
    (hj : ∃ t, journal s.scene.others c t)
    (ha : ∀ t, journal s'.scene.others c t → ∀ file ∈ files,
      t.readBytes (set.base.join file) = t'.readBytes (set.base.join file)) :
    chosen = files.filter (mentionsTags t' set.base) := by
  induction files generalizing s chosen
  case nil => cases h; rfl
  case cons file files hi =>
    have ⟨mentions, s₁, hr, h⟩ := exec_bind_ok.mp h
    have ⟨later, s₂, hk, h⟩ := exec_bind_ok.mp h
    cases h
    have ⟨hm, hf⟩ := reading_recorded hw hr hj
    have hl : Spares w journal (fun _ => True) s₁ _ :=
      (keepMentioning_keeps (reading_spares hw) set files).exec hk
    have hc : mentionsTags s.scene.tree set.base file = mentionsTags t' set.base file := by
      unfold mentionsTags
      rw [Tree.readText_congr <| ha _ (hl.later.journal hf) file List.mem_cons_self]
    have hi := hi hk ⟨_, hf⟩ fun t ht file hm => ha t ht file <| List.mem_cons_of_mem _ hm
    cases hm
    simp [hi, hc, List.filter_cons]

theorem choose_eq (hw : Faithful w p accepts journal)
    (h : exec (choose w set files) s = (.ok chosen, s')) (hj : ∃ t, journal s.scene.others c t)
    (ha : ∀ t, journal s'.scene.others c t → ∀ file ∈ files,
      t.readBytes (set.base.join file) = t'.readBytes (set.base.join file)) :
    chosen = if set.onlyMentioning then files.filter (mentionsTags t' set.base) else files := by
  unfold choose at h
  split at h
  case isTrue hc => simpa [hc] using keepMentioning_eq hw h hj ha
  case isFalse hc =>
    cases h
    simp [hc]

theorem readAll_eq (hw : Faithful w p accepts journal)
    (h : exec (readAll w set files) s = (.ok docs, s'))
    (hj : ∃ t, journal s.scene.others c t)
    (ha : ∀ t, journal s'.scene.others c t → ∀ file ∈ files,
      t.readBytes (set.base.join file) = t'.readBytes (set.base.join file)) :
    set.reader.parseAll t' set.base files = .ok docs := by
  induction files generalizing s docs
  case nil => cases h; rfl
  case cons file files hi =>
    have ⟨first, s₁, hr, h⟩ := exec_bind_ok.mp h
    have ⟨later, s₂, hk, h⟩ := exec_bind_ok.mp h
    cases h
    have ⟨hm, hf⟩ := reading_recorded hw hr hj
    have hl : Spares w journal (fun _ => True) s₁ _ :=
      (readAll_keeps (reading_spares hw) set files).exec hk
    have hc := Tree.readText_congr <| ha _ (hl.later.journal hf) file List.mem_cons_self
    have hi := hi hk ⟨_, hf⟩ fun t ht file hm => ha t ht file <| List.mem_cons_of_mem _ hm
    have hp : set.reader.parseFile t' set.base file = .ok first := by
      cases hp : set.reader.parseFile s.scene.tree set.base file <;>
        simp only [hp, Except.mapError] at hm <;> cases hm
      rwa [DocumentReader.parseFile, hc] at hp
    have hi : files.filterMapM (set.reader.parseFile t' set.base) = .ok later := hi
    rw [DocumentReader.parseAll, List.filterMapM_cons, hp, hi]
    cases first <;> rfl

theorem readSet_documents (hw : Faithful w p accepts journal) (hs : Sound w s)
    (hm : (name, set) ∈ p.fileSets) (hf : set.files = none) (he : set.expression = some e)
    (h : exec (readSet w p name set) s = (.ok docs, s')) :
    ∃ c, (∃ v, s'.watches.find? (·.1 == set.base) = some (set.base, v)) ∧
      Data.lookup name s'.clocks = some c ∧ (∃ t, journal s'.scene.others c t) ∧
      ∀ t', (∀ t, journal s'.scene.others c t → t.Agree accepts set.base e t') →
        set.Documents accepts e t' docs := by
  have ⟨files, s₁, hl, h⟩ := exec_bind_ok.mp h
  have ⟨c, t₁, hv, hc, hj, hl⟩ := listFiles_lists hw hs hm hf he hl
  have ⟨chosen, s₂, hk, h⟩ := exec_bind_ok.mp h
  have hs₁ : Spares w journal (fun _ => True) s₁ s₂ := (choose_keeps (reading_spares hw) _ _).exec hk
  have hs₂ : Spares w journal (fun _ => True) s₂ s' := (readAll_keeps (reading_spares hw) _ _).exec h
  have hs := trans_of _ hs₁ hs₂
  have hj' := hs.later.journal hj
  refine ⟨c, ?_, (hs.clock _ trivial).trans hc, ⟨t₁, hj'⟩, fun t' ha => ⟨files, ?_, ?_⟩⟩
  · have ⟨v, hv⟩ := hv
    exact ⟨v, hs.later.find? hv⟩
  · exact (ha t₁ hj').lists hl
  · have ha (t) (ht : journal s'.scene.others c t) (file) (hm : file ∈ files) :
        t.readBytes (set.base.join file) = t'.readBytes (set.base.join file) := by
      have hm := (ha t₁ hj').matches_iff.mp <| (hl.mem_iff file).mp hm
      exact ha t ht file <| .inr hm
    have hk := choose_eq hw hk ⟨t₁, hj⟩ fun t ht => ha t <| hs₂.later.journal ht
    rw [FileSet.parseFiles, ← hk]
    refine readAll_eq hw h ⟨t₁, hs₁.later.journal hj⟩ fun t ht file hm => ha t ht file ?_
    rw [hk] at hm
    split at hm
    · exact List.mem_of_mem_filter hm
    · exact hm

theorem parse_settled (hw : Faithful w p accepts journal) (hs : Sound w s)
    (hl : Data.lookup name p.fileSets = some set) (hf : set.files = none)
    (he : set.expression = some e) (h : exec (parse w p name) s = (.ok docs, s')) :
    ∃ c, Settled w accepts journal name set e s' c docs := by
  have ⟨set', s₁, hl', hr, h⟩ := parse_ok h
  cases hl.symm.trans hl'
  have ⟨c, hv, hc, hj, hd⟩ := readSet_documents hw hs (Data.mem_of_lookup hl) hf he hr
  exact ⟨c, h ▸ ⟨hv, hc, Data.lookup_insert_self, hj, hd⟩⟩

-- If an answer tells of no file that the set may have, then nothing changed since the time of the
-- set, and its documents are those of the files at the time of the answer.
theorem changesOf_settled (hw : Faithful w p accepts journal) (hs : Sound w s)
    (hm : (name, set) ∈ p.fileSets) (he : set.expression = some e)
    (hd : Settled w accepts journal name set e s c docs)
    (h : exec (changesOf w name set e) s = (.ok files, s'))
    (hg : ∀ file ∈ files, ∀ content, ¬ accepts e file content) :
    set.Documents accepts e s.scene.tree docs ∧
      ∃ c', Settled w accepts journal name set e s' c' docs := by
  rw [changesOf, exec_bind_of_ok (exec_get s)] at h
  simp only [hd.clock] at h
  rw [exec_bind_of_ok (exec_pure c s)] at h
  have ⟨r, s₁, hq, hc⟩ := exec_bind_ok.mp h
  cases hc
  have ⟨hq, hs₁⟩ := talk_ok hq
  have ⟨v, s₂, hp, ha⟩ := Watchman.query_ok hq
  have hb := (Watchman.watchProject_kept hs hp).right
  -- The watch is kept from the parse of the set, so no other command comes before the query.
  have ⟨ho, ht⟩ : s₁.watches = s.watches ∧ s₂ = s.scene := by
    have ⟨_, hv⟩ := hd.watch
    obtain h | ⟨hn, _⟩ := Watchman.watchProject_ok hp
    · exact h.right
    · simp [hn] at hv
  subst ht
  have ⟨hm, hj⟩ := hw.since hm he hb hd.began ha
  have hn (t) (ht : journal s.scene.others c t) : t.Agree accepts set.base e s.scene.tree := by
    intro file hf
    by_contra hc
    have hr := hm file t ht hc hf
    cases hf
    case inl hf => have ⟨_, _, hf⟩ := hf; exact hg file hr _ hf
    case inr hf => have ⟨_, _, hf⟩ := hf; exact hg file hr _ hf
  refine ⟨hd.covers _ hn, r.clock, ?_, Data.lookup_insert_self, ?_, ⟨_, hj⟩, fun t' ha => ?_⟩
  · exact ho ▸ hd.watch
  · rw [hs₁]; exact hd.documents
  · exact hd.covers t' fun t ht => (hn t ht).trans <| ha _ hj

end Engine

end GraphqlArtifacts
