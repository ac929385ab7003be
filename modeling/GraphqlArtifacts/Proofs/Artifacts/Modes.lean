import GraphqlArtifacts.Proofs.Artifacts.Placement
import GraphqlArtifacts.Proofs.Artifacts.Stale
import GraphqlArtifacts.Proofs.Text.Utf8

namespace GraphqlArtifacts.ArtifactWriter

open Graphql (Definition)

variable {settings : WriterSettings} {source : Path} {i : WriterInput} {t u : Tree}
  {c : ArtifactChanges} {rs : List Rendering} {r : Rendering} {gone : List Path}

-- The bytes that are written for an artifact make it current.
theorem isCurrent_of_bytesAt (ht : t.WellFormed) (hp : r.path.IsResolved)
    (hl : ∀ name ∈ r.path.parts, ¬ Tree.isTooLong name) (hr : '\r' ∉ r.text.toList)
    (hb : t.bytesAt r.path.parts = some (Utf8.encode r.text)) : IsCurrent t r :=
  (existing?_bytesAt_iff ht hp).mpr ⟨_, hb, hl, Utf8.decodeText_encode hr⟩

-- The two modes of a write find the same changes, and only one of them makes them.
theorem run_agrees (hp : settings.plugin = .javascript) (hi : Placed settings source i)
    (hn : (i.artifactPaths settings).Nodup) (ht : t.WellFormed)
    (h : run settings false i t = (.ok c, u)) :
    run settings true i t = (.ok c, t) ∧ ∃ rs, i.renderings settings = .ok rs ∧
      Since t u rs c.deleted ∧ (∀ p ∈ c.deleted, (t.bytesAt p.parts).isSome) ∧
      (c.IsCalm ↔ ∀ r ∈ rs, IsCurrent t r) := by
  obtain ⟨rs, c₁, t₁, hrs, hw, hd⟩ := run_ok_iff.mp h
  have hr : ∀ r ∈ rs, r.path.IsResolved := fun r hm => (hi.rendering hp hrs hm).left
  have hroot : ∀ r ∈ rs, r.path.root = root settings source :=
    fun r hm => (hi.rendering hp hrs hm).right
  have hdirs : (directories settings i.documents).Pairwise fun d d' => d.parts ≠ d'.parts :=
    Path.pairwise_parts (fun d hm => (hi.directories hm).right) nodup_directories
  obtain ⟨hw', hs⟩ := put_agrees ht (.refl ht) hr (hi.pairwise_parts hp hn hrs) hw
  obtain ⟨hdel, hcalm⟩ := put_changes hw'
  obtain ⟨hd', more, rfl, hs, hb⟩ := delete_agrees ht hs (fun d hm => (hi.directories hm).left)
    (fun d hm r hm' => (hroot r hm').trans (hi.directories hm).right.symm) hdirs (by simp) hd
  have hdel : c₁.deleted = [] := hdel
  refine ⟨run_ok_iff.mpr ⟨rs, c₁, t, hrs, hw', hd'⟩, rs, hrs, ?_, ?_, ?_⟩
  · simpa [hdel] using hs
  · simpa [hdel] using hb
  · simpa [ArtifactChanges.IsCalm, ArtifactChanges.none] using hcalm

-- What a write that only looks for changes says is what a write from the same tree does. It is
-- that there are changes exactly if there are other files then.
theorem validation_predicts_run (hp : settings.plugin = .javascript)
    (hi : Placed settings source i) (hn : (i.artifactPaths settings).Nodup) (ht : t.WellFormed)
    (h : run settings false i t = (.ok c, u)) :
    run settings true i t = (.ok c, t) ∧
      ((∀ rs, i.renderings settings = .ok rs → ∀ r ∈ rs, '\r' ∉ r.text.toList) →
        (c.hasChanges ↔ ∃ place, u.bytesAt place ≠ t.bytesAt place)) := by
  obtain ⟨hv, rs, hrs, hs, hb, hcalm⟩ := run_agrees hp hi hn ht h
  refine ⟨hv, fun hcr => ⟨fun hc => ?_, fun ⟨place, hne⟩ => ?_⟩⟩
  case refine_1 =>
    by_cases hall : c.IsCalm
    case pos =>
      have hd : c.deleted ≠ [] := fun hd =>
        ArtifactChanges.not_hasChanges_iff.mpr ⟨hall, hd⟩ hc
      obtain ⟨p, hm⟩ := List.exists_mem_of_ne_nil _ hd
      refine ⟨p.parts, fun he => ?_⟩
      have hf := hb p hm
      simp [← he, hs.deleted hm] at hf
    case neg =>
      simp only [hcalm, not_forall] at hall
      obtain ⟨r, hm, hr⟩ := hall
      refine ⟨r.path.parts, fun he => hr ?_⟩
      rw [hs.written hm hr] at he
      exact isCurrent_of_bytesAt ht (hi.rendering hp hrs hm).left (hs.short hm) (hcr rs hrs r hm)
        he.symm
  case refine_2 =>
    by_contra hc
    have ⟨hall, hd⟩ := ArtifactChanges.not_hasChanges_iff.mp hc
    refine hne ?_
    by_cases hm : ∃ r ∈ rs, r.path.parts = place
    case pos =>
      obtain ⟨r, hm, rfl⟩ := hm
      exact hs.current hm <| hcalm.mp hall r hm
    case neg =>
      exact hs.kept (fun r hr he => hm ⟨r, hr, he⟩) (by simp [hd])

theorem write_looking {p : Path} {text : String} : Keeps (· = ·) (write true p text c) := by
  refine .bind (fun _ => rfl) fun t => .bind (fun _ => rfl) fun old => ?_
  split <;> exact .pure _

-- A write that only looks for changes leaves all files as they are, whatever comes of it.
theorem run_looking : (run settings true i t).2 = t := by
  have hkeeps : Keeps (· = ·) (writeAll settings true i) := by
    refine .bind (fun _ => rfl) fun s => .bind (.foldlM fun f _ done => .foldlM
      fun definition _ done => .bind (fun _ => rfl) fun rendered => ?_) fun done => .foldlM
      fun directory _ c => .bind (fun _ => rfl) fun t => .bind (fun _ => rfl) fun stale => .pure _
    split
    · exact .pure _
    · exact .bind write_looking fun _ => .pure _
  exact (hkeeps t).symm

-- A query whose artifact is new.
def idSchema : Schema :=
  { Schema.empty with
    types := [⟨"Query", none, .object [] [⟨"id", [], .named "ID"⟩]⟩, ⟨"ID", none, .scalar⟩]
  }.withRoot .query "Query"

def idQuery : Definition :=
  .operation ⟨.query, some "Q", [], [], [.field none "id" [] [] []]⟩

def idInput : WriterInput :=
  ⟨idSchema, [⟨⟨"/", ["a.graphql"]⟩, [idQuery]⟩], []⟩

def idSettings : WriterSettings :=
  ⟨.javascript, ⟨[], false⟩, none⟩

def idPath : Path :=
  ⟨"/", ["__generated__", "Q.graphql.js"]⟩

def idModule : ModuleSpec where
  moduleName := "Q.graphql"
  documentType := "ConcreteRequest"
  typeText := (Flow.types idSchema ⟨[], false⟩ idQuery).toOption.getD ""
  sourceHash := Md5.digest (Utf8.encode "query Q \x7b\n  id\n\x7d")
  node := [("kind", .text "Request"), ("name", .text "Q"), ("operationKind", .text "query"),
    ("text", .text "query Q \x7b\n  id\n\x7d")]

theorem idInput_placed : Placed idSettings ⟨"/", []⟩ idInput where
  base := by simp [Path.IsResolved]
  output := by simp [idSettings]
  documents := by
    simp only [idInput, List.mem_singleton, forall_eq]
    refine ⟨"a.graphql", by decide +kernel, by decide +kernel, ?_⟩
    unfold Path.IsResolved
    decide +kernel
  names := by
    simp only [idInput, List.mem_singleton, forall_eq]
    intro name hn
    cases hn
    exact ⟨'Q', [], by decide, by decide, by simp⟩

theorem idInput_renderings :
    idInput.renderings idSettings = .ok [⟨idPath, Flow.moduleText idModule⟩] := by
  have h : (idInput.renderings idSettings).toOption =
      some [⟨idPath, Flow.moduleText idModule⟩] := by
    decide +kernel
  cases hr : idInput.renderings idSettings <;> rw [hr] at h
  case error => cases h
  case ok    => exact congrArg Except.ok <| Option.some.inj h

theorem idInput_run :
    ∃ u, run idSettings false idInput .empty = (.ok ⟨[idPath], [], [], []⟩, u) := by
  have h : (run idSettings false idInput .empty).1.toOption = some ⟨[idPath], [], [], []⟩ := by
    decide +kernel
  exact exec_of_toOption h

theorem not_mem_append {x : Char} {s s' : String} (h : x ∉ s.toList) (h' : x ∉ s'.toList) :
    x ∉ (s ++ s').toList := by
  simp [String.toList_append, h, h']

-- The text is looked at in parts, as it takes too long to decode at once.
theorem idModule_text : '\r' ∉ (Flow.moduleText idModule).toList := by
  unfold Flow.moduleText
  iterate 11 apply not_mem_append
  all_goals decide +kernel

theorem validation_predicts_idQuery : ∃ c u,
    run idSettings false idInput .empty = (.ok c, u) ∧
    run idSettings true idInput .empty = (.ok c, .empty) ∧
    ∃ place, u.bytesAt place ≠ Tree.empty.bytesAt place := by
  obtain ⟨u, h⟩ := idInput_run
  obtain ⟨hv, hc⟩ := validation_predicts_run rfl idInput_placed (by decide +kernel) .empty h
  refine ⟨_, u, h, hv, (hc fun rs hrs r hr => ?_).mp (by decide)⟩
  obtain rfl := Except.ok.inj <| idInput_renderings.symm.trans hrs
  rw [List.mem_singleton.mp hr]
  exact idModule_text

end GraphqlArtifacts.ArtifactWriter
