import GraphqlArtifacts.Proofs.Artifacts.CompileErrors
import GraphqlArtifacts.Proofs.Artifacts.Locality

namespace GraphqlArtifacts

open Graphql (Document Definition)
open Artifact (render?)

namespace ArtifactWriter

variable {settings : WriterSettings} {onlyValidate : Bool} {i : WriterInput} {s : Schema}
  {d : Document} {definition : Definition} {source : Path} {t u : Tree} {e : WriteFault}
  {name : String}

theorem writeDefinition_raises {done : ArtifactChanges × List Path} :
    Raises (fun e => e.IsFileFault ∨ render? settings s d definition = .error e)
      (writeDefinition settings onlyValidate s d source done definition) := by
  refine .bind (.liftM fun e he => .inr he) fun rendered => ?_
  rcases rendered with _ | ⟨name, text⟩
  case none => exact .pure _
  case some =>
    have hput : Raises WriteFault.IsFileFault
        (put onlyValidate done.1 ⟨Artifact.path settings source name, text⟩) := put_raises
    exact .bind (hput.mono fun _ => .inl) fun _ => .pure _

-- A write fails for the documents as a whole, for a file, or for a single definition.
theorem run_error (h : run settings onlyValidate i t = (.error e, u)) :
    i.validSchema = .error e ∨ e.IsFileFault ∨ ∃ s, i.validSchema = .ok s ∧
      ∃ f ∈ i.documents, ∃ definition ∈ f.document,
        render? settings s i.executables definition = .error e := by
  change exec (writeAll settings onlyValidate i) t = _ at h
  unfold writeAll at h
  obtain h | ⟨s, t₀, hs, h⟩ := exec_bind_error.mp h
  case inl => exact .inl (Prod.mk.inj <| (exec_liftM _ _).symm.trans h).left
  case inr =>
    obtain ⟨hv, rfl⟩ := Prod.mk.inj <| (exec_liftM _ _).symm.trans hs
    refine .inr ?_
    obtain h | ⟨⟨c, written⟩, t₁, _, h⟩ := exec_bind_error.mp h
    case inr => exact .inl <| Raises.foldlM (fun _ _ _ => deleteStale_raises) t₁ e u h
    case inl =>
      have hall : Raises (fun e => e.IsFileFault ∨ ∃ f ∈ i.documents, ∃ definition ∈ f.document,
            render? settings s i.executables definition = .error e)
          (i.documents.foldlM (fun done file => file.document.foldlM
            (writeDefinition settings onlyValidate s i.executables file.path) done)
            (ArtifactChanges.none, [])) :=
        .foldlM fun f hf _ => .foldlM fun definition hm _ => writeDefinition_raises.mono fun e he =>
          he.imp_right fun hr => ⟨f, hf, definition, hm, hr⟩
      exact (hall _ e u h).imp_right fun hr => ⟨s, hv, hr⟩

theorem mem_executables_of_name {f : DocumentFile} (hf : f ∈ i.documents)
    (hm : definition ∈ f.document) (hn : definition.name? = some name) :
    definition ∈ i.executables := by
  refine List.mem_filter.mpr ⟨List.mem_flatMap.mpr ⟨f, List.mem_append_right _ hf, hm⟩, ?_⟩
  obtain ⟨o, rfl, _⟩ | ⟨g, rfl, _⟩ := Definition.name?_eq_some hn <;> rfl

theorem render?_of_validSchema (hp : settings.plugin = .javascript) (hv : i.validSchema = .ok s)
    (hm : definition ∈ i.executables) (hn : definition.name? = some name) :
    ∃ text, render? settings s i.executables definition = .ok (some (name, text)) := by
  obtain ⟨entry, he, -, rfl⟩ := @Artifact.exists_entry i.executables i.executables _ _ hn
    fun _ => Iff.rfl
  have ⟨text, ht⟩ := Artifact.exists_moduleText (e := entry) hp (faults_of_validSchema hv) hm hn
  exact ⟨text, by rw [Artifact.render?_of_entry he, ht]; rfl⟩

-- A definition without a name fails only if it is an operation.
theorem render?_unnamed (hn : definition.name? = none)
    (h : render? settings s d definition = .error e) :
    e = .unnamedOperation ∧ ∃ o, definition = .operation o ∧ o.name = none := by
  cases definition
  case operation o =>
    have hn : o.name = none := hn
    simp only [render?, Artifact.entry?, hn, bind, Except.bind, Except.error.injEq] at h
    exact ⟨h.symm, o, rfl, hn⟩
  case fragment => cases hn
  all_goals cases h

-- Once the documents are valid in the schema with what they define and extend, each operation and
-- fragment with a name is rendered. So nothing but a file or an operation without a name stops the
-- write.
theorem validSchema_renders (hp : settings.plugin = .javascript) (hv : i.validSchema = .ok s) :
    (∀ definition ∈ i.executables, ∀ name, definition.name? = some name →
      ∃ text, render? settings s i.executables definition = .ok (some (name, text))) ∧
    ∀ onlyValidate t e u, run settings onlyValidate i t = (.error e, u) →
      e.IsFileFault ∨ e = .unnamedOperation ∧
        ∃ f ∈ i.documents, ∃ o, .operation o ∈ f.document ∧ o.name = none := by
  refine ⟨fun definition hm name hn => render?_of_validSchema hp hv hm hn,
    fun onlyValidate t e u h => ?_⟩
  obtain h | h | ⟨s', hv', f, hf, definition, hm, hr⟩ := run_error h
  case inl           => cases hv.symm.trans h
  case inr.inl       => exact .inl h
  case inr.inr =>
    obtain rfl := Except.ok.inj <| hv.symm.trans hv'
    cases hn : definition.name?
    case none =>
      obtain ⟨he, o, rfl, ho⟩ := render?_unnamed hn hr
      exact .inr ⟨he, f, hf, o, hm, ho⟩
    case some name =>
      have ⟨text, ht⟩ := render?_of_validSchema hp hv (mem_executables_of_name hf hm hn) hn
      cases ht.symm.trans hr

-- A query whose variable is of a type that the documents themselves define, for a field that they
-- add.
def datesType : Graphql.TypeRef :=
  .nonNull (.list (.nonNull (.named "Date")))

def visitsField : Graphql.FieldDefinition :=
  ⟨none, "visits", [⟨none, "dates", datesType, none, []⟩], .named "ID", []⟩

def visitsQuery : Definition :=
  .operation ⟨.query, some "Visits", [⟨"dates", datesType, none, []⟩], [],
    [.field none "visits" [⟨"dates", .variable "dates"⟩] [] []]⟩

def visitsInput : WriterInput :=
  ⟨viewerSchema, [⟨⟨"/", ["App.js"]⟩, [visitsQuery]⟩],
    [⟨⟨"/", ["Client.graphql"]⟩, [.type ⟨none, "Date", [], .scalar⟩,
      .typeExtension ⟨none, "Query", [], .object [] [visitsField]⟩]⟩]⟩

-- It is rendered in the extended schema, although its types cannot be told in the schema itself.
theorem visits_rendered : ∃ s text, visitsInput.validSchema = .ok s ∧
    render? (plainSettings none) s visitsInput.executables visitsQuery =
      .ok (some ("Visits", text)) ∧
    render? (plainSettings none) viewerSchema visitsInput.executables visitsQuery =
      .error (.plugin (.unknownVariableType "dates")) := by
  obtain ⟨s, hv⟩ := validSchema_of_isSome (i := visitsInput) (by decide +kernel)
  obtain ⟨text, hr⟩ := (@validSchema_renders (plainSettings none) _ _ rfl hv).left visitsQuery
    (List.mem_cons_self ..) "Visits" rfl
  exact ⟨s, text, hv, hr, rfl⟩

end ArtifactWriter

end GraphqlArtifacts
