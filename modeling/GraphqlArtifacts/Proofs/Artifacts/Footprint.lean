import GraphqlArtifacts.Proofs.Artifacts.Placement
import GraphqlArtifacts.Proofs.Artifacts.Stale

namespace GraphqlArtifacts

open GraphqlArtifacts.Tree (Became)

-- Only files at some places differ between two trees.
def Tree.Confined (may : List String → Prop) (t u : Tree) : Prop :=
  ∀ place, u.bytesAt place ≠ t.bytesAt place → may place

namespace Tree.Confined

variable {t u v : Tree} {may may' : List String → Prop}

theorem refl (t : Tree) : Confined may t t :=
  fun _ h => absurd rfl h

theorem trans (h : Confined may t u) (h' : Confined may u v) : Confined may t v := by
  intro place hp
  by_cases hu : u.bytesAt place = t.bytesAt place
  case pos => exact h' place <| hu ▸ hp
  case neg => exact h place hu

instance : IsTrans Tree (Confined may) where
  trans _ _ _ := .trans

theorem mono (h : Confined may t u) (hm : ∀ place, may place → may' place) : Confined may' t u :=
  fun place hp => hm place <| h place hp

end Tree.Confined

namespace ArtifactWriter

variable {settings : WriterSettings} {source p directory : Path} {i : WriterInput} {text : String}
  {t u : Tree} {may : List String → Prop} {onlyValidate : Bool} {c : ArtifactChanges}
  {written : List Path} {suffix : String} {s : Schema} {d : Graphql.Document}
  {done : ArtifactChanges × List Path} {definition : Graphql.Definition} {f : DocumentFile}

-- A step that changes files at some places only, in a tree with one entry at each place.
def Touches (may : List String → Prop) (t u : Tree) : Prop :=
  t.WellFormed → u.WellFormed ∧ t.Confined may u

instance : IsPreorder Tree (Touches may) where
  refl t ht := ⟨ht, .refl t⟩
  trans _ _ _ h₁ h₂ ht :=
    have ⟨hu, hc⟩ := h₁ ht
    have ⟨hv, hc'⟩ := h₂ hu
    ⟨hv, hc.trans hc'⟩

theorem confined_of_update {bytes : Option (List UInt8)} (hp : may p.parts)
    (h : Became t u (Function.update t.bytesAt p.parts bytes)) : t.Confined may u := by
  intro place hne
  by_cases he : place = p.parts
  case pos => exact he ▸ hp
  case neg => exact absurd (by rw [h.bytesAt, Function.update_of_ne he]) hne

-- Directories may be made for an artifact that is not written in the end.
theorem store_touches (hr : p.IsResolved) (hp : may p.parts) :
    Keeps (Touches may) (store p text) := by
  intro t ht
  unfold store
  rw [exec_bind_of_ok (exec_get t)]
  cases hd : t.makeDirectories p.parent p.parent.parts.length <;> simp only [hd]
  case error => exact ⟨ht, .refl t⟩
  case ok v =>
    have hv := Tree.makeDirectories_became ht hr.parent hd
    have hcv : t.Confined may v := fun place hne => absurd (hv.bytesAt place) hne
    rw [exec_bind_of_ok (exec_set t v)]
    cases hw : v.writeText p text <;> simp only
    case error => exact ⟨hv.wellFormed, hcv⟩
    case ok u =>
      have hu := Tree.writeText_became hv.wellFormed hr hw
      exact ⟨hu.wellFormed, hcv.trans <| confined_of_update hp hu⟩

theorem write_touches (hr : p.IsResolved) (hp : onlyValidate = false → may p.parts) :
    Keeps (Touches may) (write onlyValidate p text c) := by
  refine .bind (fun t => refl_of _ t) fun t => .bind (fun t => refl_of _ t) fun old => ?_
  split
  case isTrue  => exact .pure _
  case isFalse =>
    cases onlyValidate
    case false => exact .bind (store_touches hr <| hp rfl) fun _ => .pure _
    case true  => exact .pure _

theorem deleteStale_touches (hr : directory.IsResolved)
    (hm : onlyValidate = false → ∀ name, name.endsWith suffix → may (directory.child name).parts) :
    Keeps (Touches may) (deleteStale onlyValidate suffix written c directory) := by
  intro t ht
  unfold deleteStale
  rw [exec_bind_of_ok (exec_get t)]
  cases hs : staleIn t suffix written directory
  case error => exact ⟨ht, .refl t⟩
  case ok stale =>
    cases onlyValidate
    case true  => exact ⟨ht, .refl t⟩
    case false =>
      obtain ⟨names, rfl, hn, _, hnames⟩ := staleIn_ok ht hr hs
      have hsince : Since t ((names.map directory.child).foldl remove t) []
          (names.map directory.child) := by
        refine (Since.refl ht).removeAll ?_ ?_ ?_ ?_ ?_ <;>
          simp only [List.pairwise_map, List.forall_mem_map, hnames]
        · exact hn.imp fun hne => by simpa [Path.child] using hne
        · exact fun name h => h.isResolved ht
        · exact fun name h => h.isFile
        · exact fun name h => h.short
        · simp
      refine ⟨hsince.wellFormed, fun place hne => ?_⟩
      by_contra hno
      refine hne <| hsince.kept (by simp) ?_
      simp only [List.forall_mem_map, hnames]
      rintro name h rfl
      exact hno <| hm rfl name h.suffix

-- A place where an artifact of some documents can be.
def IsArtifactPlace (settings : WriterSettings) (i : WriterInput) (place : List String) : Prop :=
  ∃ d ∈ directories settings i.documents, ∃ name : String,
    name.endsWith (Artifact.suffix settings.plugin) ∧ place = (d.child name).parts

theorem endsWith_iff {text ending : String} :
    text.endsWith ending ↔ ending.toList <:+ text.toList := by
  rw [String.endsWith_eq_endsWith_toSlice, String.Slice.endsWith_string_iff, String.copy_toSlice]

theorem endsWith_suffix {name : String} {plugin : Plugin} :
    (name ++ Artifact.suffix plugin).endsWith (Artifact.suffix plugin) := by
  rw [endsWith_iff]
  simp

variable (hi : Placed settings source i) (hx : '/' ∉ settings.plugin.outputExtension.toList)

include hi hx

theorem path_isArtifactPlace {name : String} (hf : f ∈ i.documents) (hn : Graphql.IsName name) :
    (Artifact.path settings f.path name).IsResolved ∧
      IsArtifactPlace settings i (Artifact.path settings f.path name).parts := by
  rw [path_eq_child hx hn]
  have hr := hi.directory_resolved hf
  refine ⟨hr.child <| fileName_ne (by decide), _, ?_, _, endsWith_suffix, rfl⟩
  exact mem_directories.mpr <| .inr ⟨f, hf, rfl⟩

theorem writeDefinition_touches (hf : f ∈ i.documents) (hd : definition ∈ f.document)
    (hm : onlyValidate = false → ∀ place, IsArtifactPlace settings i place → may place) :
    Keeps (Touches may) (writeDefinition settings onlyValidate s d f.path done definition) := by
  rcases hr : Artifact.render? settings s d definition with e | _ | ⟨name, text⟩
  case error =>
    intro t
    rw [exec_writeDefinition_of_error hr]
    exact refl_of _ t
  case ok.none =>
    rw [writeDefinition_of_none hr]
    exact .pure _
  case ok.some =>
    have hname : definition.name? = some name := (Artifact.render?_name hr).symm
    have ⟨hres, hplace⟩ := path_isArtifactPlace hi hx hf <| hi.names f hf definition hd name hname
    rw [writeDefinition_of_some hr]
    exact .bind (write_touches hres fun hv => hm hv _ hplace) fun _ => .pure _

-- Whatever comes of a write, it touches places of artifacts only, and none if it only validates.
theorem run_touches (ht : t.WellFormed) : (run settings onlyValidate i t).2.WellFormed ∧
    t.Confined (fun place => onlyValidate = false ∧ IsArtifactPlace settings i place)
      (run settings onlyValidate i t).2 := by
  have hkeeps : Keeps (Touches fun place => onlyValidate = false ∧ IsArtifactPlace settings i place)
      (writeAll settings onlyValidate i) := by
    refine .bind (fun t => refl_of _ t) fun s => .bind (.foldlM fun f hf done => .foldlM
      fun definition hd done => ?_) fun done => .foldlM fun directory hd c => ?_
    · exact writeDefinition_touches hi hx hf hd fun hv place hp => ⟨hv, hp⟩
    · have hr := (hi.directories hd).left
      exact deleteStale_touches hr fun hv name hn => ⟨hv, _, hd, name, hn, rfl⟩
  exact hkeeps t ht

end ArtifactWriter

end GraphqlArtifacts
