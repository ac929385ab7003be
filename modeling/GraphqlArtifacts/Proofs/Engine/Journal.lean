import GraphqlArtifacts.Proofs.Engine.Reports
import GraphqlArtifacts.Proofs.Watchman.Commands

namespace GraphqlArtifacts

-- Which files an expression of the service accepts, by the name from the watched directory and the
-- content.
abbrev Acceptance := Data → String → List UInt8 → Bool

-- The trees that there were since a time of the service, as those outside of a run remember it.
abbrev Journal (σ : Type) := σ → String → Tree → Prop

namespace Tree

variable {accepts : Acceptance} {t t₁ t₂ t₃ : Tree} {base : Path} {e : Data} {file : String}
  {files : List String}

def Matches (accepts : Acceptance) (t : Tree) (base : Path) (e : Data) (file : String) : Prop :=
  ∃ content, t.readBytes (base.join file) = .ok content ∧ accepts e file content

-- The same files match in two trees, and with the same content.
def Agree (accepts : Acceptance) (base : Path) (e : Data) (t₁ t₂ : Tree) : Prop :=
  ∀ file, t₁.Matches accepts base e file ∨ t₂.Matches accepts base e file →
    t₁.readBytes (base.join file) = t₂.readBytes (base.join file)

-- The files that match, in the order in which an answer lists them.
structure Lists (accepts : Acceptance) (t : Tree) (base : Path) (e : Data) (files : List String) :
    Prop where
  nodup : files.Nodup
  sorted : files.Pairwise fun a b => inOrder a b
  mem_iff : ∀ file, file ∈ files ↔ t.Matches accepts base e file

theorem Matches.congr (h : t₁.readBytes (base.join file) = t₂.readBytes (base.join file)) :
    t₁.Matches accepts base e file ↔ t₂.Matches accepts base e file := by
  simp [Matches, h]

namespace Agree

theorem matches_iff (h : Agree accepts base e t₁ t₂) :
    t₁.Matches accepts base e file ↔ t₂.Matches accepts base e file :=
  ⟨fun hm => (Matches.congr <| h file <| .inl hm).mp hm,
    fun hm => (Matches.congr <| h file <| .inr hm).mpr hm⟩

theorem trans (h₁ : Agree accepts base e t₁ t₂) (h₂ : Agree accepts base e t₂ t₃) :
    Agree accepts base e t₁ t₃ := by
  intro file hm
  have hm : t₁.Matches accepts base e file ∧ t₂.Matches accepts base e file := by
    cases hm
    case inl hm => exact ⟨hm, h₁.matches_iff.mp hm⟩
    case inr hm => exact ⟨h₁.matches_iff.mpr <| h₂.matches_iff.mpr hm, h₂.matches_iff.mpr hm⟩
  exact (h₁ file <| .inl hm.left).trans <| h₂ file <| .inl hm.right

theorem lists (h : Agree accepts base e t₁ t₂) (hl : t₁.Lists accepts base e files) :
    t₂.Lists accepts base e files where
  nodup := hl.nodup
  sorted := hl.sorted
  mem_iff file := (hl.mem_iff file).trans h.matches_iff

end Agree

theorem readText_congr {p : Path} (h : t₁.readBytes p = t₂.readBytes p) :
    t₁.readText p = t₂.readText p := by
  simp [readText, h]

end Tree

namespace FileSet

-- The documents of some files of a set, as the files are in a tree.
def parseFiles (set : FileSet) (t : Tree) (files : List String) :
    Except DocumentFault (List DocumentFile) :=
  set.reader.parseAll t set.base <|
    if set.onlyMentioning then files.filter (mentionsTags t set.base) else files

-- The documents that a parse of a set gives if the files are as in a tree.
def Documents (accepts : Acceptance) (set : FileSet) (e : Data) (t : Tree)
    (docs : List DocumentFile) : Prop :=
  ∃ files, t.Lists accepts set.base e files ∧ set.parseFiles t files = .ok docs

end FileSet

-- Nothing that was recorded since any time is forgotten, and the tree that is found is recorded.
structure Remembers {σ : Type} (journal : Journal σ) (s s' : Scene σ) : Prop where
  kept : ∀ {c t}, journal s.others c t → journal s'.others c t
  found : ∀ {c t}, journal s.others c t → journal s'.others c s.tree

-- The service gave a watch for a directory.
def Answered {σ : Type} (w : World σ) (base : Path) (v : Watch) : Prop :=
  ∃ s s' answer, w.service [.text "watch-project", .text base.text] s = (.ok answer, s') ∧
    Watchman.watchOf answer = .ok v

-- An answer of the service to a query, about the files that it finds when it is asked.
def Answers {σ : Type} (w : World σ) (v : Watch) (e : Data) (since : Option String)
    (s s' : Scene σ) (r : QueryResult) : Prop :=
  ∃ answer, w.service [.text "query", .text v.root, Watchman.querySpec v e since] s = (.ok answer, s') ∧
    Watchman.resultOf answer = .ok r

-- A service that a plan can rely on, whatever others do to the files in the meantime. An answer to
-- a query for all files lists those that match. An answer since a time lists at least those with a
-- change since then that match or did match. The time of an answer is the one at which it was
-- asked.
structure Faithful {σ : Type} (w : World σ) (p : Plan) (accepts : Acceptance)
    (journal : Journal σ) : Prop where
  pass : ∀ s, Remembers journal s (w.pass s)
  pause : ∀ s, Remembers journal s (w.pause s)
  service : ∀ words s, Remembers journal s (w.service words s).2
  all : ∀ {name set e v s s' r}, (name, set) ∈ p.fileSets → set.expression = some e →
    Answered w set.base v → Answers w v e none s s' r →
      r.files.Nodup ∧ (∀ file, file ∈ r.files ↔ s.tree.Matches accepts set.base e file) ∧
      journal s'.others r.clock s.tree
  since : ∀ {name set e v c s s' r}, (name, set) ∈ p.fileSets → set.expression = some e →
    Answered w set.base v → (∃ t, journal s.others c t) → Answers w v e (some c) s s' r →
      (∀ file t, journal s.others c t →
        t.readBytes (set.base.join file) ≠ s.tree.readBytes (set.base.join file) →
        t.Matches accepts set.base e file ∨ s.tree.Matches accepts set.base e file →
          file ∈ r.files) ∧
      journal s'.others r.clock s.tree

-- Watches are only added, when the service gives them, and nothing recorded is forgotten.
structure Later {σ : Type} (w : World σ) (journal : Journal σ) (a b : Watches × Scene σ) : Prop where
  watches : a.1 <+: b.1
  answered : (∀ d ∈ a.1, Answered w d.1 d.2) → ∀ d ∈ b.1, Answered w d.1 d.2
  journal : ∀ {c t}, journal a.2.others c t → journal b.2.others c t

instance {σ : Type} {w : World σ} {journal : Journal σ} :
    IsPreorder (Watches × Scene σ) (Later w journal) where
  refl _ := ⟨List.prefix_rfl, id, id⟩
  trans _ _ _ h₁ h₂ := ⟨h₁.watches.trans h₂.watches, h₂.answered ∘ h₁.answered,
    h₂.journal ∘ h₁.journal⟩

theorem Later.find? {σ : Type} {w : World σ} {journal : Journal σ} {a b : Watches × Scene σ}
    {q : Path × Watch → Bool} {d : Path × Watch} (h : Later w journal a b)
    (hf : a.1.find? q = some d) : b.1.find? q = some d := by
  have ⟨_, hp⟩ := h.watches
  rw [← hp, List.find?_append, hf, Option.some_or]

theorem Remembers.later {σ : Type} {w : World σ} {journal : Journal σ} {s s' : Scene σ}
    (h : Remembers journal s s') (watches : Watches) :
    Later w journal (watches, s) (watches, s') :=
  ⟨List.prefix_rfl, id, h.kept⟩

namespace Watchman

variable {σ : Type} {w : World σ} {p : Plan} {accepts : Acceptance} {journal : Journal σ}
  {base : Path} {e : Data} {since : Option String} {watches watches' : Watches} {s s' : Scene σ}
  {r : QueryResult}

theorem command_later (hw : Faithful w p accepts journal) (words : List Data) :
    Keeps (Later w journal) (command w.service words) :=
  fun a => (hw.service words a.2).later a.1

theorem watchProject_later (hw : Faithful w p accepts journal) :
    Keeps (Later w journal) (watchProject w.service base) := by
  intro (watches, s)
  rw [exec_watchProject]
  cases watches.find? (·.1 == base)
  case some => exact refl_of (Later w journal) _
  case none =>
    have hl := command_later hw [.text "watch-project", .text base.text] (watches, s)
    rw [exec_command] at hl
    rcases ha : w.service [.text "watch-project", .text base.text] s with ⟨_ | answer, s₁⟩
    all_goals
      rw [ha] at hl
      dsimp only
    case error => exact hl
    case ok =>
      cases hv : watchOf answer <;> dsimp only
      case error => exact hl
      case ok v =>
        refine ⟨List.prefix_append .., fun hs d hd => ?_, hl.journal⟩
        cases List.mem_append.mp hd
        case inl hd => exact hs d hd
        case inr hd =>
          cases List.mem_singleton.mp hd
          exact ⟨s, s₁, answer, ha, hv⟩

theorem query_later (hw : Faithful w p accepts journal) :
    Keeps (Later w journal) (query w.service base e since) :=
  .bind (watchProject_later hw) fun _ => .bind (command_later hw _) fun _ => .step _

theorem clock_later (hw : Faithful w p accepts journal) :
    Keeps (Later w journal) (clock w.service base) :=
  .bind (watchProject_later hw) fun _ => .bind (command_later hw _) fun _ =>
    .bind (.step _) fun _ => .pure _

theorem query_ok (h : exec (query w.service base e since) (watches, s) = (.ok r, (watches', s'))) :
    ∃ v s₁, exec (watchProject w.service base) (watches, s) = (.ok v, (watches', s₁)) ∧
      Answers w v e since s₁ s' r := by
  have ⟨v, (watches₁, s₁), hv, h⟩ := exec_bind_ok.mp h
  have ⟨answer, _, ha, h⟩ := exec_bind_ok.mp h
  rw [exec_command, Prod.mk.injEq] at ha
  rw [Watchman.ofStep, exec_step, Prod.mk.injEq] at h
  obtain ⟨ha, rfl⟩ := ha
  obtain ⟨hr, h⟩ := h
  cases h
  exact ⟨v, s₁, hv, answer, Prod.ext ha rfl, hr⟩

end Watchman

end GraphqlArtifacts
