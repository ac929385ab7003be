import Mathlib.Logic.Relation
import GraphqlArtifacts.Proofs.Artifacts.Footprint
import GraphqlArtifacts.Proofs.Discovery.Scan
import GraphqlArtifacts.Proofs.Engine.Journal

namespace GraphqlArtifacts

-- What others did at one time: the files as they found them and as they left them.
structure Turn where
  found : Tree
  left : Tree

-- The steps of a run alone, which lie between the turns of others.
def OwnSteps (R : Tree → Tree → Prop) : Tree → List Turn → Tree → Prop
  | t, [], u            => R t u
  | t, turn :: later, u => R t turn.found ∧ OwnSteps R turn.left later u

namespace OwnSteps

variable {R S : Tree → Tree → Prop} {t u v : Tree} {turns : List Turn}

theorem mono (h : OwnSteps R t turns u) (hm : ∀ t u, R t u → S t u) : OwnSteps S t turns u := by
  induction turns generalizing t
  case nil => exact hm t u h
  case cons turn later hi => exact ⟨hm _ _ h.left, hi h.right⟩

-- Others take a turn, and find what the run left.
theorem turn (h : OwnSteps R t turns u) (hr : R v v) : OwnSteps R t (turns ++ [⟨u, v⟩]) v := by
  induction turns generalizing t
  case nil => exact ⟨h, hr⟩
  case cons turn later hi => exact ⟨h.left, hi h.right⟩

theorem step (h : OwnSteps R t turns u) (hr : ∀ t, R t u → R t v) : OwnSteps R t turns v := by
  induction turns generalizing t
  case nil => exact hr t h
  case cons turn later hi => exact ⟨h.left, hi h.right⟩

-- If others leave all files as they are, the steps are one.
theorem join [IsTrans Tree R] (h : OwnSteps R t turns u)
    (hl : ∀ turn ∈ turns, turn.left = turn.found) : R t u := by
  induction turns generalizing t
  case nil => exact h
  case cons turn later hi =>
    simp only [List.forall_mem_cons] at hl
    exact trans_of R h.left <| hl.left ▸ hi h.right hl.right

end OwnSteps

namespace World

variable {σ : Type}

-- What others do at one time: in the pauses of a run, and while the service answers.
inductive Acts (w : World σ) : Scene σ → Scene σ → Prop
  | pass (s : Scene σ) : Acts w s (w.pass s)
  | pause (s : Scene σ) : Acts w s (w.pause s)
  | service (words : List Data) (s : Scene σ) : Acts w s (w.service words s).2

-- A world that remembers each turn of others, whatever they do to the files in it. The service
-- names files by their way down from the directory that it is asked about.
structure Remembered (w : World σ) (turns : σ → List Turn) : Prop where
  records : ∀ {s s'}, w.Acts s s' → turns s'.others = turns s.others ++ [⟨s.tree, s'.tree⟩]
  wellFormed : ∀ {s s'}, w.Acts s s' → s.tree.WellFormed → s'.tree.WellFormed
  isNamed : ∀ {s s'}, w.Acts s s' → s.tree.IsNamed → s'.tree.IsNamed
  answers : ∀ {v e since s s' r}, Answers w v e since s s' r → ∀ file ∈ r.files, Path.LeadsDown file

-- The scene that others leave, with a memory of their turn.
def turned (s : Scene (σ × List Turn)) (s' : Scene σ) : Scene (σ × List Turn) :=
  ⟨s'.tree, s'.others, s.others.2 ++ [⟨s.tree, s'.tree⟩]⟩

-- Any world can be given a memory.
def remembering (w : World σ) : World (σ × List Turn) where
  service words s :=
    let (answer, s') := w.service words ⟨s.tree, s.others.1⟩
    (answer, turned s s')
  pass s := turned s (w.pass ⟨s.tree, s.others.1⟩)
  pause s := turned s (w.pause ⟨s.tree, s.others.1⟩)
  order := w.order

variable {w : World σ}

theorem acts_of_remembering {s s' : Scene (σ × List Turn)} (h : w.remembering.Acts s s') :
    ∃ s₁, w.Acts ⟨s.tree, s.others.1⟩ s₁ ∧ s' = turned s s₁ := by
  cases h
  case pass             => exact ⟨_, .pass _, rfl⟩
  case pause            => exact ⟨_, .pause _, rfl⟩
  case service words => exact ⟨_, .service words _, rfl⟩

theorem remembering_remembered
    (ht : ∀ {s s'}, w.Acts s s' → s.tree.WellFormed → s'.tree.WellFormed)
    (hn : ∀ {s s'}, w.Acts s s' → s.tree.IsNamed → s'.tree.IsNamed)
    (ha : ∀ {v e since s s' r}, Answers w v e since s s' r →
      ∀ file ∈ r.files, Path.LeadsDown file) :
    w.remembering.Remembered Prod.snd where
  records h := by
    obtain ⟨_, _, rfl⟩ := acts_of_remembering h
    rfl
  wellFormed h := by
    obtain ⟨_, hs, rfl⟩ := acts_of_remembering h
    exact ht hs
  isNamed h := by
    obtain ⟨_, hs, rfl⟩ := acts_of_remembering h
    exact hn hs
  answers := by
    rintro v e since s s' r ⟨answer, hs, hr⟩
    have ⟨hs, _⟩ := Prod.mk.inj hs
    exact ha ⟨answer, Prod.ext hs rfl, hr⟩

end World

-- What a run is about: the directory of the sources, the one of all artifacts if it is set, and
-- whether it only validates.
structure Bounds where
  source : Path
  output : Option Path
  onlyValidate : Bool

namespace Bounds

-- The directory that is set, else one beside a file below the sources that was parsed.
def IsTarget (b : Bounds) (parsed : Path → Prop) (directory : Path) : Prop :=
  match b.output with
  | some d => directory = d
  | none   => ∃ p, parsed p ∧ b.source.IsBelow p ∧ directory = p.parent.child "__generated__"

-- The place of a generated module in JavaScript, of a run that does not only validate.
structure MayTouch (b : Bounds) (parsed : Path → Prop) (place : List String) : Prop where
  writes : b.onlyValidate = false
  artifact : ∃ directory, b.IsTarget parsed directory ∧
    ∃ name : String, name.endsWith ".graphql.js" ∧ place = (directory.child name).parts

end Bounds

-- A plan within bounds: its sets name files by their way down from the directory of the sources,
-- and its outputs are in JavaScript.
structure Plan.Within (p : Plan) (b : Bounds) : Prop where
  source : b.source.IsResolved
  output : ∀ d ∈ b.output, d.IsResolved
  onlyValidate : p.onlyValidate = b.onlyValidate
  base : ∀ {name set}, (name, set) ∈ p.fileSets → set.base = b.source
  files : ∀ {name set}, (name, set) ∈ p.fileSets → ∀ files ∈ set.files, ∀ file ∈ files,
    Path.LeadsDown file
  plugin : ∀ {name o}, (name, o) ∈ p.outputs → o.writer.plugin = .javascript
  directory : ∀ {name o}, (name, o) ∈ p.outputs → o.writer.outputDirectory = b.output

namespace Engine

open EngineState

variable {σ : Type} {w : World σ} {turns : σ → List Turn} {p : Plan} {b : Bounds}
  {parsed : Path → Prop} {start : Tree} {s s' : EngineState σ} {name file : String} {set : FileSet}
  {o : Output} {schema : Schema} {files chosen : List String} {docs : List DocumentFile}
  {f : DocumentFile} {α β : Type}

-- Documents of a file below a directory, with names of the syntax.
structure IsFound (source : Path) (f : DocumentFile) : Prop where
  below : source.IsBelow f.path
  named : ∀ d ∈ f.document, d.IsNamed

-- What is true all along a run: it alone changed nothing but artifacts, and the documents that it
-- keeps are those of files below the directory of the sources.
structure Contained (turns : σ → List Turn) (b : Bounds) (parsed : Path → Prop) (start : Tree)
    (s : EngineState σ) : Prop where
  wellFormed : s.scene.tree.WellFormed
  steps : OwnSteps (Tree.Confined (b.MayTouch parsed)) start (turns s.scene.others) s.scene.tree
  documents : ∀ {name}, ∀ f ∈ s.documentsOf name, IsFound b.source f

-- What is true all along stays so.
def Goes (turns : σ → List Turn) (b : Bounds) (parsed : Path → Prop) (start : Tree)
    (s s' : EngineState σ) : Prop :=
  Contained turns b parsed start s → Contained turns b parsed start s'

instance : IsPreorder (EngineState σ) (Goes turns b parsed start) where
  refl _ := id
  trans _ _ _ h₁ h₂ := h₂ ∘ h₁

-- Several turns of others, one after another.
def Acted (w : World σ) (a b : Watches × Scene σ) : Prop :=
  Relation.ReflTransGen w.Acts a.2 b.2

instance : IsPreorder (Watches × Scene σ) (Acted w) where
  refl _ := .refl
  trans _ _ _ := .trans

theorem command_acted (words : List Data) : Keeps (Acted w) (Watchman.command w.service words) :=
  fun a => .single <| .service words a.2

theorem watchProject_acted (base : Path) :
    Keeps (Acted w) (Watchman.watchProject w.service base) := by
  refine .bind (fun _ => .refl) fun (watches, s) => ?_
  dsimp only
  split
  · exact .pure _
  · exact .bind (command_acted _) fun _ => .bind (.step _) fun _ => .bind (fun _ => .refl) fun _ =>
      .pure _

theorem query_acted (base : Path) (e : Data) (since : Option String) :
    Keeps (Acted w) (Watchman.query w.service base e since) :=
  .bind (watchProject_acted base) fun _ => .bind (command_acted _) fun _ => .step _

theorem clock_acted (base : Path) : Keeps (Acted w) (Watchman.clock w.service base) :=
  .bind (watchProject_acted base) fun _ => .bind (command_acted _) fun _ => .bind (.step _) fun _ =>
    .pure _

theorem isAvailable_acted (installed : Bool) :
    Keeps (Acted w) (Watchman.isAvailable w.service installed) := by
  unfold Watchman.isAvailable
  split
  case isFalse => exact .pure _
  case isTrue =>
    refine .tryCatch (.bind (command_acted _) fun _ => .pure _) fun e => ?_
    split
    · exact .pure _
    · exact .throw _

section

variable (hw : w.Remembered turns)

include hw

theorem goes_of_acts {scene : Scene σ} (h : w.Acts s.scene scene) :
    Goes turns b parsed start s { s with scene } := by
  intro hc
  refine ⟨hw.wellFormed h hc.wellFormed, ?_, hc.documents⟩
  have hturn := hc.steps.turn (.refl scene.tree)
  rwa [← hw.records h] at hturn

theorem goes_of_acted {scene : Scene σ} (h : Relation.ReflTransGen w.Acts s.scene scene) :
    Goes turns b parsed start s { s with scene } := by
  induction h
  case refl => exact refl_of (Goes turns b parsed start) s
  case tail scene _ _ ha hi =>
    exact fun hc => @goes_of_acts _ _ _ _ _ _ { s with scene } hw _ ha (hi hc)

theorem talk_goes {t : Watchman.Talk (Scene σ) α} (ht : Keeps (Acted w) t) :
    Keeps (Goes turns b parsed start) (talk t) := by
  intro s hc
  have ⟨hwf, hs, hd⟩ := goes_of_acted hw (ht (s.watches, s.scene)) hc
  exact ⟨hwf, hs, hd⟩

theorem reading_goes (f : Tree → Except EngineFault α) :
    Keeps (Goes turns b parsed start) (reading w f) := by
  intro s
  rw [exec_reading]
  cases f s.scene.tree
  case error => exact refl_of (Goes turns b parsed start) s
  case ok    => exact goes_of_acts hw <| .pass _

theorem allows_goes (name : String) : Allows w (Goes turns b parsed start) name where
  query _ _ _ := talk_goes hw <| query_acted _ _ _
  clock _ := talk_goes hw <| clock_acted _
  note _ _ := fun ⟨hwf, hs, hd⟩ => ⟨hwf, hs, hd⟩
  reading := reading_goes hw

theorem listFiles_leadsDown (hf : ∀ files ∈ set.files, ∀ file ∈ files, Path.LeadsDown file)
    (h : exec (listFiles w p name set) s = (.ok files, s')) :
    ∀ file ∈ files, Path.LeadsDown file := by
  unfold listFiles at h
  split at h
  case h_1 hs =>
    cases h
    exact hf _ hs
  case h_2 =>
    cases h
    simp
  case h_3 =>
    split at h
    case isTrue => simp at h
    case isFalse =>
      have ⟨r, s₁, hq, h⟩ := exec_bind_ok.mp h
      cases h
      have ⟨_, _, _, ha⟩ := Watchman.query_ok (talk_ok hq).left
      exact hw.answers ha

end

theorem keepMentioning_subset (h : exec (keepMentioning w set files) s = (.ok chosen, s')) :
    chosen ⊆ files := by
  induction files generalizing s chosen
  case nil => cases h; exact List.Subset.refl _
  case cons file files hi =>
    have ⟨mentions, s₁, _, h⟩ := exec_bind_ok.mp h
    have ⟨later, s₂, hk, h⟩ := exec_bind_ok.mp h
    cases h
    split
    · exact List.cons_subset_cons _ <| hi hk
    · exact List.subset_cons_of_subset _ <| hi hk

theorem choose_subset (h : exec (choose w set files) s = (.ok chosen, s')) : chosen ⊆ files := by
  unfold choose at h
  split at h
  · exact keepMentioning_subset h
  · cases h
    exact List.Subset.refl _

theorem readAll_found (hd : ∀ file ∈ files, Path.LeadsDown file)
    (h : exec (readAll w set files) s = (.ok docs, s')) : ∀ f ∈ docs, IsFound set.base f := by
  induction files generalizing s docs
  case nil => cases h; simp
  case cons file files hi =>
    have ⟨first, s₁, hf, h⟩ := exec_bind_ok.mp h
    have ⟨later, s₂, hk, h⟩ := exec_bind_ok.mp h
    cases h
    simp only [List.forall_mem_cons] at hd
    intro f hm
    cases List.mem_append.mp hm
    case inr hm => exact hi hd.right hk f hm
    case inl hm =>
      obtain rfl : first = some f := by simpa using hm
      have ⟨hp, hn⟩ := DocumentReader.parseFile_ok <| mapError_ok.mp (exec_reading_ok.mp hf).left
      exact ⟨⟨file, hp, hd.left⟩, hn⟩

theorem readSet_found (hw : w.Remembered turns) (hp : p.Within b) (hm : (name, set) ∈ p.fileSets)
    (h : exec (readSet w p name set) s = (.ok docs, s')) : ∀ f ∈ docs, IsFound b.source f := by
  have ⟨files, s₁, hl, h⟩ := exec_bind_ok.mp h
  have ⟨chosen, s₂, hk, h⟩ := exec_bind_ok.mp h
  have hd : ∀ file ∈ chosen, Path.LeadsDown file := fun file hf =>
    listFiles_leadsDown hw (hp.files hm) hl file <| choose_subset hk hf
  exact hp.base hm ▸ readAll_found hd h

theorem keep_goes (hd : ∀ f ∈ docs, IsFound b.source f) :
    Goes turns b parsed start s (s.keep name docs) := by
  intro h
  refine ⟨h.wellFormed, h.steps, fun {n} f hf => ?_⟩
  by_cases hn : name = n
  case pos =>
    subst hn
    rw [documentsOf, keep, Data.lookup_insert_self] at hf
    exact hd f hf
  case neg =>
    rw [documentsOf, keep, Data.lookup_insert_of_ne <| Ne.symm hn] at hf
    exact h.documents f hf

theorem report_goes (e : Event) :
    Keeps (Goes turns b parsed start) (report e : Engine σ Unit) :=
  fun _ ⟨hwf, hs, hd⟩ => ⟨hwf, hs, hd⟩

theorem recovering_goes {caption : String} {step : Engine σ α}
    (h : Keeps (Goes turns b parsed start) step) :
    Keeps (Goes turns b parsed start) (recovering caption step) := by
  refine .tryCatch (.bind h fun _ => .pure _) fun e => ?_
  split
  · exact .throw _
  · exact .bind (report_goes _) fun _ => .pure _

section

variable (hw : w.Remembered turns) (hp : p.Within b)

include hw hp

theorem parse_goes : Keeps (Goes turns b parsed start) (parse w p name) := by
  intro s
  cases hl : Data.lookup name p.fileSets
  case none =>
    simp only [parse, hl, exec_throw]
    exact refl_of (Goes turns b parsed start) s
  case some set =>
    have hm := Data.mem_of_lookup hl
    rw [exec_parse hl]
    rcases hr : exec (readSet w p name set) s with ⟨_ | docs, s₁⟩
    all_goals
      have hg : Goes turns b parsed start s s₁ := ((allows_goes hw name).readSet set).exec hr
    case error => exact hg
    case ok    => exact fun hc => keep_goes (readSet_found hw hp hm hr) (hg hc)

theorem parseEach_goes (names : List String) :
    Keeps (Goes turns b parsed start) (parseEach w p names) :=
  .forM fun _ _ => .discard <| parse_goes hw hp

theorem parseChanged_goes : Keeps (Goes turns b parsed start) (parseChanged w p) :=
  .bind (Allows.changedSets fun n _ => allows_goes hw n) fun _ =>
    .bind (parseEach_goes hw hp _) fun _ => .pure _

end

-- Files whose documents are kept.
def Kept (s : EngineState σ) (path : Path) : Prop :=
  ∃ name, ∃ f ∈ s.documentsOf name, f.path = path

-- Outputs are written from the documents that are kept, which stay the same.
structure Writes (turns : σ → List Turn) (b : Bounds) (parsed : Path → Prop) (start : Tree)
    (s s' : EngineState σ) : Prop where
  documents : s'.documents = s.documents
  contained : (∀ path, Kept s path → parsed path) → Goes turns b parsed start s s'

theorem kept_congr (h : s'.documents = s.documents) : Kept s' = Kept s := by
  unfold Kept documentsOf
  rw [h]

instance : IsPreorder (EngineState σ) (Writes turns b parsed start) where
  refl _ := ⟨rfl, fun _ => id⟩
  trans _ _ _ h₁ h₂ := by
    refine ⟨h₂.documents.trans h₁.documents, fun hk => h₂.contained ?_ ∘ h₁.contained hk⟩
    rwa [kept_congr h₁.documents]

theorem inputOf_placed (hp : p.Within b) (hm : (name, o) ∈ p.outputs)
    (h : Contained turns b parsed start s) :
    ArtifactWriter.Placed o.writer b.source (inputOf o schema s) where
  base := hp.source
  output := hp.directory hm ▸ hp.output
  documents f hf := (h.documents f hf).below
  names f hf := (h.documents f hf).named

theorem mayTouch_of_isArtifactPlace {place : List String} (hp : p.Within b)
    (hm : (name, o) ∈ p.outputs) (hk : ∀ path, Kept s path → parsed path)
    (h : Contained turns b parsed start s) (hv : p.onlyValidate = false)
    (ha : ArtifactWriter.IsArtifactPlace o.writer (inputOf o schema s) place) :
    b.MayTouch parsed place := by
  have ⟨directory, hd, name, hn, he⟩ := ha
  rw [Artifact.suffix, hp.plugin hm] at hn
  refine ⟨hp.onlyValidate ▸ hv, directory, ?_, name, hn, he⟩
  rw [ArtifactWriter.mem_directories, hp.directory hm] at hd
  unfold Bounds.IsTarget
  cases hb : b.output <;> simp only [Artifact.directory, hp.directory hm, hb] at hd ⊢
  case some => obtain hd | ⟨_, _, hd⟩ := hd <;> simpa [eq_comm] using hd
  case none =>
    obtain hd | ⟨f, hf, rfl⟩ := hd
    · simp at hd
    · exact ⟨f.path, hk _ ⟨_, f, hf, rfl⟩, (h.documents f hf).below, rfl⟩

theorem writeOutput_tree : (exec (writeOutput p name o schema) s).2.scene.tree =
    (ArtifactWriter.run o.writer p.onlyValidate (inputOf o schema s) s.scene.tree).2 := by
  simp only [writeOutput, exec_bind, exec_get, exec_set]
  rcases ArtifactWriter.run o.writer p.onlyValidate (inputOf o schema s) s.scene.tree with
    ⟨_ | _, t⟩
  case error => rfl
  case ok    => simp only [exec_bind, exec_reportEach]; rfl

section

variable (hp : p.Within b)

include hp

theorem writeOutput_writes (hm : (name, o) ∈ p.outputs) :
    Keeps (Writes turns b parsed start) (writeOutput p name o schema) := by
  intro s
  have ⟨outcome, s', he, hs⟩ := @writeOutput_wrote σ p s name o schema
  have ht := @writeOutput_tree σ p s name o schema
  rw [he] at ht ⊢
  refine ⟨hs.documents, fun hk h => ?_⟩
  have hi : ArtifactWriter.Placed o.writer b.source (inputOf o schema s) := inputOf_placed hp hm h
  have hx : '/' ∉ o.writer.plugin.outputExtension.toList := by rw [hp.plugin hm]; decide
  have ⟨hwf, hc⟩ := @ArtifactWriter.run_touches _ _ _ _ p.onlyValidate hi hx h.wellFormed
  have hc := hc.mono fun place ha => mayTouch_of_isArtifactPlace hp hm hk h ha.left ha.right
  constructor
  case wellFormed => exact ht ▸ hwf
  case steps =>
    rw [hs.others, ht]
    exact h.steps.step fun t hs => hs.trans hc
  case documents =>
    intro n f hf
    rw [documentsOf, hs.documents] at hf
    exact h.documents f hf

theorem compile_writes : Keeps (Writes turns b parsed start) (compile p name : Engine σ _) := by
  unfold compile
  split
  case h_1 => exact .throw _
  case h_2 o hl =>
    split
    case h_1 => exact .throw _
    case h_2 => exact writeOutput_writes hp <| Data.mem_of_lookup hl

theorem compileEach_writes :
    Keeps (Writes turns b parsed start) (compileEach p : Engine σ _) :=
  .bind (.mapM fun _ _ => compile_writes hp) fun _ => .pure _

theorem compileAffected_writes (changed : List String) :
    Keeps (Writes turns b parsed start) (compileAffected p changed : Engine σ _) := by
  refine .forM fun (name, o) _ => ?_
  dsimp only
  split
  · exact .discard <| compile_writes hp
  · exact .pure _

end

-- What is written after a parse, from documents that are still kept at the end, is so as well.
theorem goes_of_parse_of_write {parse : Engine σ α} {write : α → Engine σ β}
    (hparse : Keeps (Goes turns b parsed start) parse)
    (hwrite : ∀ a, Keeps (Writes turns b parsed start) (write a))
    (hk : ∀ path, Kept (exec (parse >>= write) s).2 path → parsed path) :
    Goes turns b parsed start s (exec (parse >>= write) s).2 := by
  rw [exec_bind] at hk ⊢
  rcases h : exec parse s with ⟨_ | a, s₁⟩ <;> simp only [h] at hk ⊢
  all_goals have hg : Goes turns b parsed start s s₁ := hparse.exec h
  case error => exact hg
  case ok =>
    have hw := hwrite a s₁
    rw [kept_congr hw.documents] at hk
    exact fun hc => hw.contained hk (hg hc)

theorem exec_pollTimes_one : (exec (pollTimes w p 1) s).2 = (exec (poll w p) s).2 := by
  rw [pollTimes, exec_bind]
  rcases exec (poll w p) s with ⟨_ | _, _⟩ <;> rfl

theorem exec_watchAll_of_service {polls : Nat} (hs : p.hasService) :
    exec (watchAll w p polls) s = match exec (compileAll w p) s with
    | (.ok _, s₁)    =>
      exec (pollTimes w p polls) (s₁.reported (.message "Watching for changes..."))
    | (.error e, s₁) => (.error e, s₁) := by
  simp only [watchAll, hs, Bool.not_true, Bool.false_eq_true, if_false]
  rw [exec_bind, exec_discard]
  rcases exec (compileAll w p) s with ⟨_ | _, s₁⟩ <;> rfl

section

variable (hw : w.Remembered turns) (hp : p.Within b)

include hw hp

theorem compileAll_goes (hk : ∀ path, Kept (exec (compileAll w p) s).2 path → parsed path) :
    Goes turns b parsed start s (exec (compileAll w p) s).2 := by
  refine goes_of_parse_of_write (recovering_goes <| parseEach_goes hw hp _) (fun parsed => ?_) hk
  split
  · exact .pure _
  · exact compileEach_writes hp

theorem poll_goes (hk : ∀ path, Kept (exec (poll w p) s).2 path → parsed path) :
    Goes turns b parsed start s (exec (poll w p) s).2 := by
  rw [poll, exec_bind_of_ok (exec_modify ..)] at hk ⊢
  have hpause : Goes turns b parsed start s { s with scene := w.pause s.scene } :=
    goes_of_acts hw <| .pause _
  refine fun hc => goes_of_parse_of_write (recovering_goes <| parseChanged_goes hw hp)
    (fun changed => ?_) hk (hpause hc)
  split
  · exact .pure _
  · exact compileAffected_writes hp _

theorem pollTimes_goes {n : Nat}
    (hk : ∀ k ≤ n, ∀ path, Kept (exec (pollTimes w p k) s).2 path → parsed path) :
    Goes turns b parsed start s (exec (pollTimes w p n) s).2 := by
  induction n generalizing s
  case zero => exact refl_of (Goes turns b parsed start) s
  case succ n hi =>
    have hpoll : Goes turns b parsed start s (exec (poll w p) s).2 :=
      poll_goes hw hp fun path h => hk 1 (by omega) path <| exec_pollTimes_one ▸ h
    rcases h : exec (poll w p) s with ⟨_ | _, s₁⟩ <;> rw [h] at hpoll
    case error =>
      rw [pollTimes, exec_bind_of_error h]
      exact hpoll
    case ok =>
      have hstep (k : Nat) : exec (pollTimes w p (k + 1)) s = exec (pollTimes w p k) s₁ :=
        exec_bind_of_ok h
      rw [hstep]
      refine trans_of (Goes turns b parsed start) hpoll <| hi fun k hle path hp => ?_
      exact hk (k + 1) (by omega) path <| (hstep k).symm ▸ hp

theorem watchAll_goes {polls : Nat}
    (hk : ∀ k ≤ polls, ∀ path, Kept (exec (watchAll w p k) s).2 path → parsed path) :
    Goes turns b parsed start s (exec (watchAll w p polls) s).2 := by
  cases hs : p.hasService
  case false =>
    simp only [watchAll, hs]
    exact refl_of (Goes turns b parsed start) s
  case true =>
    simp only [exec_watchAll_of_service hs] at hk ⊢
    have hcompile : Goes turns b parsed start s (exec (compileAll w p) s).2 := by
      refine compileAll_goes hw hp fun path h => hk 0 (Nat.zero_le _) path ?_
      rcases he : exec (compileAll w p) s with ⟨_ | _, s₁⟩ <;> rwa [he] at h
    rcases he : exec (compileAll w p) s with ⟨_ | _, s₁⟩ <;> simp only [he] at hk hcompile ⊢
    case error => exact hcompile
    case ok =>
      refine trans_of (Goes turns b parsed start) hcompile ?_
      exact trans_of (Goes turns b parsed start) (report_goes _ s₁) <| pollTimes_goes hw hp hk

end

end Engine

end GraphqlArtifacts
