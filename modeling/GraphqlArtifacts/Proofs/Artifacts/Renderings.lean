import GraphqlArtifacts.Artifacts.Writer
import GraphqlArtifacts.Proofs.Except
import GraphqlArtifacts.Proofs.Exec
import GraphqlArtifacts.Proofs.Files.Path
import GraphqlArtifacts.Proofs.Graphql.Names

namespace GraphqlArtifacts

open Graphql (Document Definition)

-- What is written for a definition, and where.
structure Rendering where
  path : Path
  text : String
  deriving DecidableEq

namespace Artifact

variable {settings : WriterSettings} {s : Schema} {d : Document} {source : Path}
  {files : List DocumentFile} {document : Document} {definition : Definition}
  {rs : List Rendering}

def renderEach (settings : WriterSettings) (s : Schema) (d : Document) (source : Path) :
    Document → Except WriteFault (List Rendering)
  | []                 => .ok []
  | definition :: rest => do
    let rendered ← render? settings s d definition
    let later ← renderEach settings s d source rest
    return match rendered with
      | none              => later
      | some (name, text) => ⟨path settings source name, text⟩ :: later

def renderAll (settings : WriterSettings) (s : Schema) (d : Document) :
    List DocumentFile → Except WriteFault (List Rendering)
  | []           => .ok []
  | file :: rest => do
    let first ← renderEach settings s d file.path file.document
    let later ← renderAll settings s d rest
    return first ++ later

-- The paths of the artifacts of a document, by the names of its definitions.
def paths (settings : WriterSettings) (source : Path) (document : Document) : List Path :=
  (document.filterMap Definition.name?).map (path settings source)

theorem entry?_name {e : Option Entry} (h : entry? d definition = .ok e) :
    e.map Entry.name = definition.name? := by
  cases definition
  case operation o =>
    cases hn : o.name <;> simp only [ entry?, hn, reduceCtorEq, Except.ok.injEq] at h
    simp [← h, Definition.name?, hn]
  all_goals
    cases h
    rfl

theorem render?_name {r : Option (String × String)}
    (h : render? settings s d definition = .ok r) : r.map Prod.fst = definition.name? := by
  obtain ⟨e, he, h⟩ := bind_ok.mp h
  rw [← entry?_name he]
  cases e
  case none =>
    cases h
    rfl
  case some e =>
    obtain ⟨types, _, h⟩ := bind_ok.mp h
    obtain ⟨text, _, h⟩ := bind_ok.mp h
    cases h
    rfl

theorem entry?_isSome {e : Option Entry} (h : entry? d definition = .ok e)
    (he : definition.isExecutable) : e.isSome := by
  cases definition
  case operation o =>
    cases hn : o.name <;> simp only [ entry?, hn, reduceCtorEq, Except.ok.injEq] at h
    simp [← h]
  case fragment =>
    cases h
    rfl
  all_goals cases he

-- An operation or fragment that is rendered at all gets an artifact.
theorem render?_isSome {rendered : Option (String × String)}
    (h : render? settings s d definition = .ok rendered) (he : definition.isExecutable) :
    rendered.isSome := by
  obtain ⟨e, hf, h⟩ := bind_ok.mp h
  obtain ⟨e, rfl⟩ := Option.isSome_iff_exists.mp <| entry?_isSome hf he
  obtain ⟨types, _, h⟩ := bind_ok.mp h
  obtain ⟨text, _, h⟩ := bind_ok.mp h
  cases h
  rfl

theorem renderEach_paths (h : renderEach settings s d source document = .ok rs) :
    rs.map Rendering.path = paths settings source document := by
  induction document generalizing rs
  case nil =>
    cases h
    rfl
  case cons definition document hi =>
    obtain ⟨rendered, hr, h⟩ := bind_ok.mp h
    obtain ⟨later, hl, h⟩ := bind_ok.mp h
    have hn := render?_name hr
    have hi := hi hl
    rcases rendered with _ | ⟨name, text⟩ <;> cases h
    case none => simp [hi, paths, ← hn]
    case some => simp [hi, paths, ← hn]

theorem renderAll_paths (h : renderAll settings s d files = .ok rs) :
    rs.map Rendering.path = files.flatMap fun f => paths settings f.path f.document := by
  induction files generalizing rs
  case nil =>
    cases h
    rfl
  case cons file files hi =>
    obtain ⟨first, hf, h⟩ := bind_ok.mp h
    obtain ⟨later, hl, h⟩ := bind_ok.mp h
    cases h
    simp [renderEach_paths hf, hi hl]

theorem renderEach_mem (h : renderEach settings s d source document = .ok rs)
    (hm : definition ∈ document) : ∃ rendered, render? settings s d definition = .ok rendered ∧
      ∀ name text, rendered = some (name, text) → ⟨path settings source name, text⟩ ∈ rs := by
  induction document generalizing rs
  case nil => cases hm
  case cons first document hi =>
    obtain ⟨rendered, hr, h⟩ := bind_ok.mp h
    obtain ⟨later, hl, h⟩ := bind_ok.mp h
    cases h
    obtain rfl | hm := List.mem_cons.mp hm
    case inl =>
      refine ⟨rendered, hr, ?_⟩
      rintro name text rfl
      exact List.mem_cons_self ..
    case inr =>
      obtain ⟨rendered', hr', hin⟩ := hi hl hm
      refine ⟨rendered', hr', fun name text he => ?_⟩
      cases rendered
      case none => exact hin name text he
      case some => exact List.mem_cons_of_mem _ <| hin name text he

theorem renderAll_mem {file : DocumentFile} (h : renderAll settings s d files = .ok rs)
    (hf : file ∈ files) (hm : definition ∈ file.document) :
    ∃ rendered, render? settings s d definition = .ok rendered ∧ ∀ name text,
      rendered = some (name, text) → ⟨path settings file.path name, text⟩ ∈ rs := by
  induction files generalizing rs
  case nil => cases hf
  case cons head files hi =>
    obtain ⟨first, hfirst, h⟩ := bind_ok.mp h
    obtain ⟨later, hl, h⟩ := bind_ok.mp h
    cases h
    obtain rfl | hf := List.mem_cons.mp hf
    case inl =>
      obtain ⟨rendered, hr, hin⟩ := renderEach_mem hfirst hm
      exact ⟨rendered, hr, fun name text he => List.mem_append_left _ <| hin name text he⟩
    case inr =>
      obtain ⟨rendered, hr, hin⟩ := hi hl hf
      exact ⟨rendered, hr, fun name text he => List.mem_append_right _ <| hin name text he⟩

end Artifact

namespace ArtifactWriter

open Artifact

variable {settings : WriterSettings} {s : Schema} {d : Document} {source : Path}
  {files : List DocumentFile} {document : Document} {onlyValidate : Bool} {c c' : ArtifactChanges}
  {written written' : List Path} {t u : Tree} {i : WriterInput} {definition : Definition}
  {name text : String}

def put (onlyValidate : Bool) (c : ArtifactChanges) (r : Rendering) : Write ArtifactChanges :=
  write onlyValidate r.path r.text c

theorem writeDefinition_of_none {done : ArtifactChanges × List Path}
    (h : render? settings s d definition = .ok none) :
    writeDefinition settings onlyValidate s d source done definition = pure done := by
  rw [writeDefinition, h]
  rfl

theorem writeDefinition_of_some {done : ArtifactChanges × List Path}
    (h : render? settings s d definition = .ok (some (name, text))) :
    writeDefinition settings onlyValidate s d source done definition =
      put onlyValidate done.1 ⟨path settings source name, text⟩ >>=
        fun c => pure (c, done.2 ++ [path settings source name]) := by
  rw [writeDefinition, h]
  rfl

theorem exec_writeDefinition_of_error {done : ArtifactChanges × List Path} {e : WriteFault}
    (h : render? settings s d definition = .error e) :
    exec (writeDefinition settings onlyValidate s d source done definition) t = (.error e, t) := by
  rw [writeDefinition, h]
  rfl

-- A document is written by writing its renderings, if all of them can be had.
theorem exec_writeDefinitions_ok :
    exec (document.foldlM (writeDefinition settings onlyValidate s d source) (c, written)) t =
      (.ok (c', written'), u) ↔
    ∃ rs, renderEach settings s d source document = .ok rs ∧
      written' = written ++ rs.map Rendering.path ∧
      exec (rs.foldlM (put onlyValidate) c) t = (.ok c', u) := by
  induction document generalizing c written t
  case nil =>
    simp only [renderEach, List.foldlM_nil, exec_pure, Prod.mk.injEq, Except.ok.injEq,
      exists_eq_left', List.map_nil, List.append_nil]
    grind
  case cons definition document hi =>
    rw [List.foldlM_cons]
    rcases hr : render? settings s d definition with e | _ | ⟨name, text⟩
    case error =>
      rw [exec_bind_of_error <| exec_writeDefinition_of_error hr]
      simp [renderEach, hr, bind, Except.bind]
    case ok.none =>
      rw [writeDefinition_of_none hr, pure_bind, hi]
      simp [renderEach, hr, bind_ok]
    case ok.some =>
      rw [writeDefinition_of_some hr, bind_assoc]
      constructor
      case mp =>
        intro h
        obtain ⟨c₁, t₁, hp, h⟩ := exec_bind_ok.mp h
        obtain ⟨rs, hrs, rfl, hl⟩ := hi.mp h
        refine ⟨⟨path settings source name, text⟩ :: rs, ?_, by simp, ?_⟩
        · simp [renderEach, hr, hrs, bind, Except.bind, pure, Except.pure]
        · rw [List.foldlM_cons]
          exact exec_bind_ok.mpr ⟨c₁, t₁, hp, hl⟩
      case mpr =>
        intro ⟨rs, hrs, hw, h⟩
        obtain ⟨rendered, hd, hrs⟩ := bind_ok.mp hrs
        obtain ⟨later, hl, hrs⟩ := bind_ok.mp hrs
        obtain rfl : some (name, text) = rendered := Except.ok.inj <| hr.symm.trans hd
        cases hrs
        rw [List.foldlM_cons] at h
        obtain ⟨c₁, t₁, hp, h⟩ := exec_bind_ok.mp h
        exact exec_bind_ok.mpr ⟨c₁, t₁, hp, hi.mpr ⟨later, hl, by simp [hw], h⟩⟩

theorem exec_writeFiles_ok :
    exec (files.foldlM (fun done file => file.document.foldlM
      (writeDefinition settings onlyValidate s d file.path) done) (c, written)) t =
        (.ok (c', written'), u) ↔
    ∃ rs, renderAll settings s d files = .ok rs ∧
      written' = written ++ rs.map Rendering.path ∧
      exec (rs.foldlM (put onlyValidate) c) t = (.ok c', u) := by
  induction files generalizing c written t
  case nil =>
    simp only [renderAll, List.foldlM_nil, exec_pure, Prod.mk.injEq, Except.ok.injEq,
      exists_eq_left', List.map_nil, List.append_nil]
    grind
  case cons file files hi =>
    rw [List.foldlM_cons]
    constructor
    case mp =>
      intro h
      obtain ⟨⟨c₁, written₁⟩, t₁, hf, h⟩ := exec_bind_ok.mp h
      obtain ⟨first, hfs, rfl, hp⟩ := exec_writeDefinitions_ok.mp hf
      obtain ⟨later, hls, rfl, hl⟩ := hi.mp h
      refine ⟨first ++ later, ?_, by simp, ?_⟩
      · simp [renderAll, hfs, hls, bind, Except.bind, pure, Except.pure]
      · rw [List.foldlM_append]
        exact exec_bind_ok.mpr ⟨c₁, t₁, hp, hl⟩
    case mpr =>
      intro ⟨rs, hrs, hw, h⟩
      obtain ⟨first, hfs, hrs⟩ := bind_ok.mp hrs
      obtain ⟨later, hls, hrs⟩ := bind_ok.mp hrs
      cases hrs
      rw [List.foldlM_append] at h
      obtain ⟨c₁, t₁, hf, hl⟩ := exec_bind_ok.mp h
      exact exec_bind_ok.mpr ⟨_, t₁, exec_writeDefinitions_ok.mpr ⟨first, hfs, rfl, hf⟩,
        hi.mpr ⟨later, hls, by simp [hw], hl⟩⟩

end ArtifactWriter

-- All that is written for some documents, in their order.
def WriterInput.renderings (settings : WriterSettings) (i : WriterInput) :
    Except WriteFault (List Rendering) := do
  let s ← i.validSchema
  Artifact.renderAll settings s i.executables i.documents

def WriterInput.artifactPaths (settings : WriterSettings) (i : WriterInput) : List Path :=
  i.documents.flatMap fun f => Artifact.paths settings f.path f.document

namespace ArtifactWriter

variable {settings : WriterSettings} {onlyValidate : Bool} {c : ArtifactChanges} {t u : Tree}
  {i : WriterInput} {rs : List Rendering}

theorem renderings_paths (h : i.renderings settings = .ok rs) :
    rs.map Rendering.path = i.artifactPaths settings := by
  obtain ⟨s, _, h⟩ := bind_ok.mp h
  exact Artifact.renderAll_paths h

-- A write puts all renderings in place, and then deletes all other artifacts.
theorem run_ok_iff : run settings onlyValidate i t = (.ok c, u) ↔
    ∃ rs c₁ t₁, i.renderings settings = .ok rs ∧
      exec (rs.foldlM (put onlyValidate) .none) t = (.ok c₁, t₁) ∧
      exec ((directories settings i.documents).foldlM (deleteStale onlyValidate
        (Artifact.suffix settings.plugin) (rs.map Rendering.path)) c₁) t₁ = (.ok c, u) := by
  change exec (writeAll settings onlyValidate i) t = _ ↔ _
  unfold writeAll
  constructor
  case mp =>
    intro h
    obtain ⟨s, t₀, hs, h⟩ := exec_bind_ok.mp h
    obtain ⟨hv, rfl⟩ := Prod.mk.inj <| (exec_liftM _ _).symm.trans hs
    obtain ⟨⟨c₁, written⟩, t₁, hf, hd⟩ := exec_bind_ok.mp h
    obtain ⟨rs, hrs, rfl, hp⟩ := exec_writeFiles_ok.mp hf
    exact ⟨rs, c₁, t₁, bind_ok.mpr ⟨s, hv, hrs⟩, hp, hd⟩
  case mpr =>
    intro ⟨rs, c₁, t₁, hr, hp, hd⟩
    obtain ⟨s, hs, hr⟩ := bind_ok.mp hr
    refine exec_bind_ok.mpr ⟨s, t, by rw [exec_liftM, hs], exec_bind_ok.mpr ⟨(c₁, _), t₁, ?_, hd⟩⟩
    exact exec_writeFiles_ok.mpr ⟨rs, hr, rfl, hp⟩

end ArtifactWriter

end GraphqlArtifacts
