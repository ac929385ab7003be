import GraphqlArtifacts.Proofs.Artifacts.Clashes
import GraphqlArtifacts.Proofs.Artifacts.Sync

namespace GraphqlArtifacts

open Graphql (Document Definition)

-- Faults of the documents themselves.
def WriteFault.IsCompileError (e : WriteFault) : Prop :=
  e.kindName = "CodegenError"

namespace WriteFault

@[simp]
theorem isCompileError_iff {e : WriteFault} :
    e.IsCompileError ↔ (∃ faults, e = .invalid faults) ∨ e = .unnamedOperation := by
  unfold IsCompileError
  cases e
  case schema e => cases e <;> simp [kindName]
  case plugin e => cases e <;> simp [kindName, PluginFailure.kindName]
  case read e =>
    cases e
    case file e =>
      cases hf : e.fault <;> simp [kindName, ReadError.kindName, FileFault.kindName, hf]
    case decoding e => simp [kindName, ReadError.kindName]
  case file e => cases hf : e.fault <;> simp [kindName, FileFault.kindName, hf]
  all_goals simp [kindName]

-- Faults of the files that a write reads and writes.
inductive IsFileFault : WriteFault → Prop
  | read (e : ReadError) : IsFileFault (.read e)
  | file (e : FileError) : IsFileFault (.file e)

theorem IsFileFault.not_isCompileError {e : WriteFault} (h : e.IsFileFault) :
    ¬ e.IsCompileError := by
  cases h <;> simp

end WriteFault

-- What is rendered before the first fault.
def Artifact.renderUntilFault (settings : WriterSettings) (s : Schema) (d : Document) :
    List (Path × Definition) → List Rendering
  | []                           => []
  | (source, definition) :: rest =>
    match render? settings s d definition with
    | .error _             => []
    | .ok none             => renderUntilFault settings s d rest
    | .ok (some (name, text)) =>
      ⟨path settings source name, text⟩ :: renderUntilFault settings s d rest

-- What is rendered before a write fails, which is nothing if the documents are not valid.
def WriterInput.renderedUntilFault (settings : WriterSettings) (i : WriterInput) : List Rendering :=
  match i.validSchema with
  | .error _ => []
  | .ok s    => Artifact.renderUntilFault settings s i.executables i.sites

namespace ArtifactWriter

open Artifact

variable {settings : WriterSettings} {source : Path} {i : WriterInput} {s : Schema} {d : Document}
  {t u : Tree} {c c' : ArtifactChanges} {rs : List Rendering} {r : Rendering} {e : WriteFault}
  {files : List DocumentFile} {sites : List (Path × Definition)} {written : List Path}
  {dirs : List Path} {suffix : String} {onlyValidate : Bool}
  {definition : Definition}

theorem renderUntilFault_paths : (renderUntilFault settings s d sites).map Rendering.path <+:
    sites.filterMap fun site => site.2.name?.map (path settings site.1) := by
  induction sites
  case nil => exact List.prefix_rfl
  case cons site sites hi =>
    obtain ⟨source, definition⟩ := site
    rcases hr : render? settings s d definition with _ | _ | ⟨name, text⟩ <;>
      simp only [renderUntilFault, hr]
    case error => exact List.nil_prefix
    case ok.none =>
      have hn : definition.name? = none := (render?_name hr).symm
      simpa [hn] using hi
    case ok.some =>
      have hn : definition.name? = some name := (render?_name hr).symm
      simpa [hn] using hi

theorem renderedUntilFault_paths :
    (i.renderedUntilFault settings).map Rendering.path <+: i.artifactPaths settings := by
  rw [artifactPaths_eq, WriterInput.renderedUntilFault]
  cases i.validSchema
  case error => exact List.nil_prefix
  case ok    => exact renderUntilFault_paths

-- The files are written definition by definition.
theorem foldlM_files (done : ArtifactChanges × List Path) :
    files.foldlM (fun done file => file.document.foldlM
      (writeDefinition settings onlyValidate s d file.path) done) done =
    (files.flatMap fun f => f.document.map (f.path, ·)).foldlM
      (fun done site => writeDefinition settings onlyValidate s d site.1 done site.2) done := by
  induction files generalizing done
  case nil => rfl
  case cons file files hi =>
    rw [List.foldlM_cons, List.flatMap_cons, List.foldlM_append, List.foldlM_map]
    congr 1
    funext done
    exact hi done

theorem existing?_error (h : existing? t r.path = .error e) : e.IsFileFault := by
  obtain h | ⟨there, _, h⟩ := bind_error.mp h
  case inl =>
    obtain ⟨e, _, rfl⟩ := mapError_error.mp h
    exact .file e
  case inr =>
    cases there
    case false => cases h
    case true =>
      obtain h | ⟨text, _, h⟩ := bind_error.mp h
      case inl =>
        obtain ⟨e, _, rfl⟩ := mapError_error.mp h
        exact .read e
      case inr => cases h

theorem store_raises {p : Path} {text : String} :
    Raises WriteFault.IsFileFault (store p text) := by
  refine .bind .get fun t => ?_
  dsimp only
  split
  case h_1 e _ => exact .throw <| .file e
  case h_2 =>
    refine .bind (.set _) fun _ => ?_
    split
    case h_1 e _ => exact .throw <| .file e
    case h_2     => exact .set _

theorem put_raises : Raises WriteFault.IsFileFault (put onlyValidate c r) := by
  refine .bind .get fun t => .bind (.liftM fun e he => existing?_error he) fun old => ?_
  split
  case isTrue  => exact .pure _
  case isFalse =>
    cases onlyValidate
    case false => exact .bind store_raises fun _ => .pure _
    case true  => exact .pure _

theorem deleteStale_raises {p : Path} :
    Raises WriteFault.IsFileFault (deleteStale onlyValidate suffix written c p) := by
  refine .bind .get fun t => .bind (.liftM fun e he => ?_) fun stale => ?_
  case refine_1 =>
    obtain ⟨e, _, rfl⟩ := mapError_error.mp he
    exact .file e
  case refine_2 =>
    cases onlyValidate
    case false => exact .bind (.modify _) fun _ => .pure _
    case true  => exact .pure _

-- Only an operation without a name is refused after the documents were found valid.
theorem render?_compileError (h : render? settings s d definition = .error e)
    (he : e.IsCompileError) :
    e = .unnamedOperation ∧ ∃ o, definition = .operation o ∧ o.name = none := by
  obtain hf | ⟨entry, _, hf⟩ := bind_error.mp h
  case inl =>
    cases definition
    case operation o =>
      cases hn : o.name <;> simp only [ entry?, hn, reduceCtorEq, Except.error.injEq] at hf
      exact ⟨hf.symm, o, rfl, hn⟩
    all_goals cases hf
  case inr =>
    cases entry
    case none => cases hf
    case some entry =>
      obtain hf | ⟨types, _, hf⟩ := bind_error.mp hf
      case inl =>
        obtain ⟨e, _, rfl⟩ := mapError_error.mp hf
        simp at he
      case inr =>
        obtain hf | ⟨text, _, hf⟩ := bind_error.mp hf
        case inl =>
          obtain ⟨e, _, rfl⟩ := mapError_error.mp hf
          simp at he
        case inr => cases hf

-- A compile error comes from a definition, after what comes before it was put.
theorem exec_writeSites_error
    (h : exec (sites.foldlM (fun done site =>
      writeDefinition settings onlyValidate s d site.1 done site.2) (c, written)) t = (.error e, u))
    (he : e.IsCompileError) :
    (∃ site ∈ sites, render? settings s d site.2 = .error e) ∧
      ∃ c', exec ((renderUntilFault settings s d sites).foldlM (put onlyValidate) c) t =
        (.ok c', u) := by
  induction sites generalizing c written t
  case nil => cases h
  case cons site sites hi =>
    obtain ⟨source, definition⟩ := site
    rw [List.foldlM_cons] at h
    rcases hr : render? settings s d definition with e' | _ | ⟨name, text⟩
    case error =>
      rw [exec_bind_of_error <| exec_writeDefinition_of_error hr] at h
      cases h
      exact ⟨⟨_, List.mem_cons_self .., hr⟩, c, by simp [renderUntilFault, hr]⟩
    case ok.none =>
      rw [writeDefinition_of_none hr, pure_bind] at h
      obtain ⟨⟨site, hm, hs⟩, hp⟩ := hi h
      exact ⟨⟨site, List.mem_cons_of_mem _ hm, hs⟩, by simpa [renderUntilFault, hr] using hp⟩
    case ok.some =>
      rw [writeDefinition_of_some hr, bind_assoc] at h
      obtain hp | ⟨c₁, t₁, hp, h⟩ := exec_bind_error.mp h
      case inl => exact absurd he (put_raises t e u hp).not_isCompileError
      case inr =>
        obtain ⟨⟨site, hm, hs⟩, c', hl⟩ := hi h
        refine ⟨⟨site, List.mem_cons_of_mem _ hm, hs⟩, c', ?_⟩
        simp only [renderUntilFault, hr, List.foldlM_cons]
        rw [exec_bind_of_ok hp, hl]

-- A write that ends with a compile error has put what comes before it, and has deleted nothing.
theorem run_compileError (h : run settings onlyValidate i t = (.error e, u))
    (he : e.IsCompileError) :
    (∃ c, exec ((i.renderedUntilFault settings).foldlM (put onlyValidate) .none) t = (.ok c, u)) ∧
      (i.renderedUntilFault settings = [] ∨ e = .unnamedOperation ∧ ∃ s, i.validSchema = .ok s ∧
        ∃ p o, (p, .operation o) ∈ i.sites ∧ o.name = none) := by
  change exec (writeAll settings onlyValidate i) t = _ at h
  unfold writeAll at h
  obtain h | ⟨s, t₀, hs, h⟩ := exec_bind_error.mp h
  case inl =>
    obtain ⟨hv, rfl⟩ := Prod.mk.inj <| (exec_liftM _ _).symm.trans h
    simp [WriterInput.renderedUntilFault, hv]
  case inr =>
    obtain ⟨hv, rfl⟩ := Prod.mk.inj <| (exec_liftM _ _).symm.trans hs
    obtain h | ⟨⟨c₁, written⟩, t₁, _, h⟩ := exec_bind_error.mp h
    case inl =>
      rw [foldlM_files, ← WriterInput.sites] at h
      obtain ⟨⟨⟨p, definition⟩, hm, hr⟩, c, hp⟩ := exec_writeSites_error h he
      obtain ⟨rfl, o, rfl, hn⟩ := render?_compileError hr he
      have hput : exec ((i.renderedUntilFault settings).foldlM (put onlyValidate) .none) t =
          (.ok c, u) := by
        simpa [WriterInput.renderedUntilFault, hv] using hp
      exact ⟨⟨c, hput⟩, .inr ⟨rfl, s, hv, p, o, hm, hn⟩⟩
    case inr =>
      have hd := Raises.foldlM (fun _ _ _ => deleteStale_raises) t₁ e u h
      exact absurd he hd.not_isCompileError

theorem exec_putAll_true (h : exec (rs.foldlM (put true) c) t = (.ok c', u)) : u = t := by
  induction rs generalizing c
  case nil =>
    cases h
    rfl
  case cons r rs hi =>
    rw [List.foldlM_cons] at h
    obtain ⟨c₁, t₁, hp, hl⟩ := exec_bind_ok.mp h
    obtain ⟨_, _, _, rfl⟩ := exec_put_true_ok hp
    exact hi hl

-- An operation without a name is the only one, so that no other has the name of a fragment.
theorem renderedUntilFault_nodup (hi : Placed settings source i)
    (h : run settings onlyValidate i t = (.error e, u)) (he : e.IsCompileError) :
    ((i.renderedUntilFault settings).map Rendering.path).Nodup := by
  obtain hr | ⟨_, s, hv, p, o, hm, hn⟩ := (run_compileError h he).right
  case inl => simp [hr]
  case inr =>
    have hops : ∀ f ∈ i.documents, ∀ o', .operation o' ∈ f.document → o' = o := by
      intro f hf o' ho'
      have hin {f : DocumentFile} {o : Graphql.Operation} (hf : f ∈ i.documents)
          (ho : .operation o ∈ f.document) : .operation o ∈ i.executables :=
        List.mem_filter.mpr ⟨List.mem_flatMap.mpr ⟨f, List.mem_append_right _ hf, ho⟩, rfl⟩
      obtain ⟨f', hf', ho, _⟩ := mem_sites.mp hm
      exact Validation.anonymous_alone (faults_of_validSchema hv) (hin hf' ho) hn (hin hf ho')
    have hc : ¬ HasClash settings i := by
      rintro ⟨f, hf, _, _, o', g, ho', _, hname, _⟩
      obtain rfl := hops f hf o' ho'
      simp [hn] at hname
    exact (nodup_artifactPaths hi.names hv hc).sublist renderedUntilFault_paths.sublist

theorem compileError_since (ht : t.WellFormed) (hi : Placed settings source i)
    (hx : '/' ∉ settings.plugin.outputExtension.toList)
    (h : run settings false i t = (.error e, u)) (he : e.IsCompileError) :
    Since t u (i.renderedUntilFault settings) [] := by
  have hpath : ∀ r ∈ i.renderedUntilFault settings,
      r.path.IsResolved ∧ r.path.root = root settings source := fun r hm =>
    hi.artifactPath hx <| renderedUntilFault_paths.subset <| List.mem_map_of_mem hm
  have hne := Path.pairwise_parts (List.forall_mem_map.mpr fun r hm => (hpath r hm).right) <|
    renderedUntilFault_nodup hi h he
  rw [List.pairwise_map] at hne
  obtain ⟨c, hput⟩ := (run_compileError h he).left
  exact (put_agrees ht (.refl ht) (fun r hm => (hpath r hm).left) hne hput).right

theorem Since.isSome_bytesAt (ht : t.WellFormed) (hs : Since t u rs [])
    (hr : ∀ r ∈ rs, r.path.IsResolved) {place : List String} (hb : (t.bytesAt place).isSome) :
    (u.bytesAt place).isSome := by
  by_cases hm : ∃ r ∈ rs, r.path.parts = place
  case pos =>
    obtain ⟨r, hm, rfl⟩ := hm
    exact ((Tree.isFile_iff hs.wellFormed (hr r hm)).mp <| hs.isFile ht hm (hr r hm)).left
  case neg =>
    rwa [hs.kept (fun r hm' he => hm ⟨r, hm', he⟩) (by simp)]

-- Putting changes no file exactly if each artifact is current, or is written as it was.
theorem Since.same_iff (hs : Since t u rs []) : (∀ place, u.bytesAt place = t.bytesAt place) ↔
    ∀ r ∈ rs, IsCurrent t r ∨ t.bytesAt r.path.parts = some (Utf8.encode r.text) := by
  constructor
  case mp =>
    intro h r hm
    by_cases hc : IsCurrent t r
    case pos => exact .inl hc
    case neg => exact .inr <| h r.path.parts ▸ hs.written hm hc
  case mpr =>
    intro h place
    by_cases hm : ∃ r ∈ rs, r.path.parts = place
    case neg => exact hs.kept (fun r hm' he => hm ⟨r, hm', he⟩) (by simp)
    case pos =>
      obtain ⟨r, hm, rfl⟩ := hm
      by_cases hc : IsCurrent t r
      case pos => exact hs.current hm hc
      case neg => rw [hs.written hm hc, (h r hm).resolve_left hc]

-- A compile error deletes nothing, and leaves all files alone exactly if no definition before an
-- operation without a name has an artifact to be written.
theorem compileError_spares_iff (ht : t.WellFormed)
    (h : run settings onlyValidate i t = (.error e, u)) (he : e.IsCompileError) :
    (u = t ∨ e = .unnamedOperation ∧ onlyValidate = false ∧
      ∃ r ∈ i.renderedUntilFault settings, ¬ IsCurrent t r) ∧
    (Placed settings source i → '/' ∉ settings.plugin.outputExtension.toList →
      (∀ place, (t.bytesAt place).isSome → (u.bytesAt place).isSome) ∧
      ((∀ place, u.bytesAt place = t.bytesAt place) ↔ onlyValidate ∨
        ∀ r ∈ i.renderedUntilFault settings,
          IsCurrent t r ∨ t.bytesAt r.path.parts = some (Utf8.encode r.text))) := by
  obtain ⟨⟨c, hput⟩, hcause⟩ := run_compileError h he
  cases onlyValidate
  case true =>
    obtain rfl := exec_putAll_true hput
    simp
  case false =>
    constructor
    case left =>
      by_cases hall : ∀ r ∈ i.renderedUntilFault settings, IsCurrent t r
      case pos =>
        rw [exec_putAll_of_isCurrent hall] at hput
        exact .inl (Prod.mk.inj hput).right.symm
      case neg =>
        simp only [not_forall] at hall
        obtain ⟨r, hm, hr⟩ := hall
        have hne : i.renderedUntilFault settings ≠ [] := List.ne_nil_of_mem hm
        exact .inr ⟨(hcause.resolve_left hne).left, rfl, r, hm, hr⟩
    case right =>
      intro hi hx
      have hs := compileError_since ht hi hx h he
      have hr : ∀ r ∈ i.renderedUntilFault settings, r.path.IsResolved := fun r hm =>
        (hi.artifactPath hx <| renderedUntilFault_paths.subset <| List.mem_map_of_mem hm).left
      exact ⟨fun _ => hs.isSome_bytesAt ht hr, by simpa using hs.same_iff⟩

-- A fragment followed by the query that spreads it, which has no name.
def cardInput : WriterInput :=
  ⟨viewerSchema, [⟨⟨"/", ["App.js"]⟩, [.fragment ⟨"Card", "User", [], [.field none "id" [] [] []]⟩,
    .operation ⟨.query, none, [], [], [.field none "viewer" [] [] [.spread "Card" []]]⟩]⟩], []⟩

def cardPath : Path :=
  ⟨"/", ["__generated__", "Card.graphql.js"]⟩

theorem cardInput_placed : Placed (plainSettings none) ⟨"/", []⟩ cardInput := by
  constructor
  case base      => simp [Path.IsResolved]
  case output    => simp [plainSettings]
  case documents => simpa [cardInput] using appFile_below
  case names =>
    have hc : Graphql.IsName "Card" :=
      ⟨'C', ['a', 'r', 'd'], by decide, by decide, List.all_eq_true.mp <| by decide⟩
    simpa [cardInput, Definition.IsNamed, Definition.name?] using hc

theorem cardInput_run (onlyValidate : Bool) :
    ∃ u, run (plainSettings none) onlyValidate cardInput .empty = (.error .unnamedOperation, u) := by
  have h : ((run (plainSettings none) onlyValidate cardInput .empty).1 matches
      .error .unnamedOperation) = true := by
    revert onlyValidate
    decide +kernel
  split at h
  case h_1 hr => exact ⟨_, Prod.ext hr rfl⟩
  case h_2    => cases h

theorem not_isCurrent_empty (hr : r.path.IsResolved) : ¬ IsCurrent .empty r := by
  simp [IsCurrent, existing?_bytesAt_iff .empty hr]

-- Only validating leaves the files alone, but a run leaves the fragment's artifact.
theorem compileError_card : ∃ u v,
    run (plainSettings none) true cardInput .empty = (.error .unnamedOperation, u) ∧
    run (plainSettings none) false cardInput .empty = (.error .unnamedOperation, v) ∧
    (∀ place, u.bytesAt place = Tree.empty.bytesAt place) ∧
    ¬ ∀ place, v.bytesAt place = Tree.empty.bytesAt place := by
  obtain ⟨u, hu⟩ := cardInput_run true
  obtain ⟨v, hv⟩ := cardInput_run false
  have hx : '/' ∉ (plainSettings none).plugin.outputExtension.toList := by
    decide +kernel
  have ⟨_, hvalidated⟩ := (compileError_spares_iff .empty hu rfl).right cardInput_placed hx
  have ⟨_, hwritten⟩ := (compileError_spares_iff .empty hv rfl).right cardInput_placed hx
  have hpaths : (cardInput.renderedUntilFault (plainSettings none)).map Rendering.path =
      [cardPath] := by
    decide +kernel
  obtain ⟨r, hrs, hr⟩ := List.map_eq_singleton_iff.mp hpaths
  have hc : ¬ IsCurrent .empty r := not_isCurrent_empty <| by
    rw [hr]
    simp [cardPath, Path.IsResolved]
  exact ⟨u, v, hu, hv, hvalidated.mpr <| .inl rfl, hwritten.not.mpr <| by simp [hrs, hc]⟩

-- The fragment's artifact is there after a run that ended with a compile error.
theorem card_left_behind : ∃ e u, run (plainSettings none) false cardInput .empty = (.error e, u) ∧
    e.IsCompileError ∧ Tree.empty.bytesAt cardPath.parts = none ∧
    (u.bytesAt cardPath.parts).isSome := by
  obtain ⟨u, h⟩ := cardInput_run false
  have hb : ((run (plainSettings none) false cardInput .empty).2.bytesAt cardPath.parts).isSome := by
    decide +kernel
  exact ⟨_, u, h, rfl, rfl, by rwa [h] at hb⟩

end ArtifactWriter

end GraphqlArtifacts
