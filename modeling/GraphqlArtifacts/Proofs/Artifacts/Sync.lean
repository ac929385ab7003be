import GraphqlArtifacts.Proofs.Artifacts.Modes

namespace GraphqlArtifacts

-- Whether a tree has no entries but those of another.
structure Tree.Within (u t : Tree) : Prop where
  entry : ∀ {place e}, u.get? place = some e → t.get? place = some e

namespace Tree.Within

variable {t u v : Tree} {place : List String} {content : List UInt8}

theorem refl (t : Tree) : t.Within t where
  entry := id

theorem trans (h : v.Within u) (h' : u.Within t) : v.Within t where
  entry := h'.entry ∘ h.entry

theorem erase (t : Tree) (place : List String) : (t.erase place).Within t where
  entry hg := by
    rw [get?_erase] at hg
    split at hg
    case isTrue  => cases hg
    case isFalse => exact hg

theorem bytesAt (h : u.Within t) (hb : u.bytesAt place = some content) :
    t.bytesAt place = some content :=
  bytesAt_eq_some.mpr <| h.entry <| bytesAt_eq_some.mp hb

end Tree.Within

namespace ArtifactWriter

open Graphql (Definition)

variable {settings : WriterSettings} {source p d directory : Path} {i : WriterInput}
  {t u v : Tree} {c c' : ArtifactChanges} {rs done : List Rendering} {r : Rendering}
  {gone stale dirs written : List Path} {suffix name : String} {onlyValidate : Bool}

-- What is current

theorem Since.isFile (ht : t.WellFormed) (hs : Since t u done gone) (hm : r ∈ done)
    (hp : r.path.IsResolved) : u.isFile r.path := by
  refine (Tree.isFile_iff hs.wellFormed hp).mpr ⟨?_, hs.short hm⟩
  by_cases hc : IsCurrent t r
  case pos =>
    obtain ⟨content, hb, _⟩ := (existing?_bytesAt_iff ht hp).mp hc
    rw [hs.current hm hc, hb]
    rfl
  case neg =>
    rw [hs.written hm hc]
    rfl

-- An artifact that was put is current, whether it was written or there before.
theorem Since.isCurrent (ht : t.WellFormed) (hs : Since t u done gone) (hm : r ∈ done)
    (hp : r.path.IsResolved) (hr : '\r' ∉ r.text.toList) : IsCurrent u r := by
  by_cases hc : IsCurrent t r
  case pos =>
    rw [IsCurrent, existing?_bytesAt_iff hs.wellFormed hp, hs.current hm hc]
    exact (existing?_bytesAt_iff ht hp).mp hc
  case neg => exact isCurrent_of_bytesAt hs.wellFormed hp (hs.short hm) hr (hs.written hm hc)

theorem IsCurrent.readText (h : IsCurrent t r) : t.readText r.path = .ok r.text := by
  obtain ⟨content, hl, hd⟩ := existing?_some_iff.mp h
  simp [Tree.readText, Tree.readBytes, hl, hd, Except.mapError]

-- What is stale

theorem remove_within (t : Tree) (p : Path) : (remove t p).Within t := by
  unfold remove
  cases t.walk [] p.parts
  case error => exact .refl t
  case ok    => exact .erase t _

theorem removeAll_within (t : Tree) (stale : List Path) : (stale.foldl remove t).Within t := by
  induction stale generalizing t
  case nil         => exact .refl t
  case cons p _ hi => exact (hi _).trans <| remove_within t p

-- Nothing gets stale when entries are taken away.
theorem staleIn_within (hu : u.WellFormed) (hv : v.WellFormed) (hw : v.Within u)
    (hd : directory.IsResolved) (h : staleIn u suffix written directory = .ok stale) :
    ∃ left, staleIn v suffix written directory = .ok left ∧
      ∀ p ∈ left, p ∈ stale ∧ (v.bytesAt p.parts).isSome := by
  cases hl : staleIn v suffix written directory
  case error =>
    have hx := Tree.walk_mono hw.entry (staleIn_error hl) (by simp) (by simp)
    simp [staleIn_of_tooLong hx] at h
  case ok left =>
    obtain ⟨names, rfl, _, _, hm⟩ := staleIn_ok hu hd h
    obtain ⟨names', rfl, _, _, hm'⟩ := staleIn_ok hv hd hl
    refine ⟨_, rfl, List.forall_mem_map.mpr fun name hname => ?_⟩
    have hs := (hm' name).mp hname
    obtain ⟨content, hb⟩ := Option.isSome_iff_exists.mp hs.isFile
    have hs' : IsStale u suffix written directory name :=
      ⟨by rw [hw.bytesAt hb]; rfl, hs.short, hs.unwritten, hs.suffix⟩
    exact ⟨List.mem_map_of_mem <| (hm name).mpr hs', hs.isFile⟩

theorem staleIn_removed (hs : Since t u done gone) (hd : directory.IsResolved)
    (hr : ∀ r ∈ done, r.path.root = directory.root)
    (h : staleIn u suffix (done.map Rendering.path) directory = .ok stale) :
    staleIn (stale.foldl remove u) suffix (done.map Rendering.path) directory = .ok [] := by
  have hv := hs.removeStale hd hr h
  obtain ⟨left, hl, hm⟩ :=
    staleIn_within hs.wellFormed hv.wellFormed (removeAll_within u stale) hd h
  suffices he : left = [] by rw [hl, he]
  refine List.eq_nil_iff_forall_not_mem.mpr fun p hp => ?_
  have ⟨hg, hf⟩ := hm p hp
  simp [hv.deleted <| List.mem_append_right _ hg] at hf

-- Deleting what is stale leaves nothing stale, in the directories that are done first as well.
theorem delete_clears (hs : Since t u done gone) (hd : ∀ d ∈ dirs, d.IsResolved)
    (hr : ∀ d ∈ dirs, ∀ r ∈ done, r.path.root = d.root)
    (h : exec (dirs.foldlM (deleteStale false suffix <| done.map Rendering.path) c) u =
      (.ok c', v)) :
    v.WellFormed ∧ v.Within u ∧
      ∀ d ∈ dirs, staleIn v suffix (done.map Rendering.path) d = .ok [] := by
  induction dirs generalizing u gone c
  case nil =>
    cases h
    exact ⟨hs.wellFormed, .refl _, by simp⟩
  case cons d dirs hi =>
    simp only [List.forall_mem_cons] at hd hr ⊢
    rw [List.foldlM_cons] at h
    obtain ⟨c₁, u₁, hx, hl⟩ := exec_bind_ok.mp h
    obtain ⟨stale, hf, rfl, rfl⟩ := exec_deleteStale_ok.mp hx
    have hs₁ := hs.removeStale hd.left hr.left hf
    obtain ⟨hv, hw, hrest⟩ := hi hs₁ hd.right hr.right hl
    obtain ⟨left, hleft, hm⟩ :=
      staleIn_within hs₁.wellFormed hv hw hd.left <| staleIn_removed hs hd.left hr.left hf
    have he : left = [] := List.eq_nil_iff_forall_not_mem.mpr fun p hp => by simpa using hm p hp
    exact ⟨hv, hw.trans <| removeAll_within u stale, he ▸ hleft, hrest⟩

-- A write leaves nothing stale in any of its directories.
theorem run_clears (hp : settings.plugin = .javascript) (hi : Placed settings source i)
    (hn : (i.artifactPaths settings).Nodup) (ht : t.WellFormed)
    (h : run settings false i t = (.ok c, u)) :
    ∃ rs, i.renderings settings = .ok rs ∧ Since t u rs c.deleted ∧
      ∀ d ∈ directories settings i.documents,
        staleIn u (Artifact.suffix settings.plugin) (rs.map Rendering.path) d = .ok [] := by
  obtain ⟨_, rs, hrs, hs, _⟩ := run_agrees hp hi hn ht h
  obtain ⟨rs', c₁, t₁, hrs', hw, hd⟩ := run_ok_iff.mp h
  obtain rfl : rs = rs' := Except.ok.inj <| hrs.symm.trans hrs'
  have hr : ∀ r ∈ rs, r.path.IsResolved := fun r hm => (hi.rendering hp hrs hm).left
  have hroot : ∀ r ∈ rs, r.path.root = root settings source := fun r hm =>
    (hi.rendering hp hrs hm).right
  have ⟨_, hs₁⟩ := put_agrees ht (.refl ht) hr (hi.pairwise_parts hp hn hrs) hw
  have ⟨_, _, hclear⟩ := delete_clears hs₁ (fun d hm => (hi.directories hm).left)
    (fun d hm r hm' => (hroot r hm').trans (hi.directories hm).right.symm) hd
  exact ⟨rs, hrs, hs, hclear⟩

-- The directories that a write looks after: the one that is set, else one beside each document,
-- whatever the document defines.
def IsTouched (settings : WriterSettings) (i : WriterInput) (d : Path) : Prop :=
  match settings.outputDirectory with
  | some output => d = output
  | none        => ∃ f ∈ i.documents, d = f.path.parent.child Artifact.directoryName

theorem IsTouched.mem_directories (h : IsTouched settings i d) :
    d ∈ directories settings i.documents := by
  unfold IsTouched at h
  refine ArtifactWriter.mem_directories.mpr ?_
  cases ho : settings.outputDirectory <;> rw [ho] at h
  case some => exact .inl <| h ▸ rfl
  case none =>
    obtain ⟨f, hf, rfl⟩ := h
    exact .inr ⟨f, hf, by simp [Artifact.directory, ho]⟩

-- After a write, each operation and fragment has its artifact, and the directories that were looked
-- after have no others.
theorem run_in_sync (hp : settings.plugin = .javascript) (hi : Placed settings source i)
    (hn : (i.artifactPaths settings).Nodup) (ht : t.WellFormed)
    (h : run settings false i t = (.ok c, u)) :
    (∃ s, i.validSchema = .ok s ∧ ∀ f ∈ i.documents, ∀ d ∈ f.document, d.isExecutable →
      ∃ name text, d.name? = some name ∧
        Artifact.render? settings s i.executables d = .ok (some (name, text)) ∧
        u.isFile (Artifact.path settings f.path name) ∧
        ('\r' ∉ text.toList → u.readText (Artifact.path settings f.path name) = .ok text)) ∧
    ∀ d, IsTouched settings i d → ∀ name : String, name.endsWith (Artifact.suffix settings.plugin) →
      u.isFile (d.child name) → d.child name ∈ i.artifactPaths settings := by
  obtain ⟨rs, hrs, hs, hclear⟩ := run_clears hp hi hn ht h
  constructor
  case left =>
    obtain ⟨s, hv, hall⟩ := bind_ok.mp hrs
    refine ⟨s, hv, fun f hf d hd he => ?_⟩
    obtain ⟨rendered, hr, hin⟩ := Artifact.renderAll_mem hall hf hd
    obtain ⟨⟨name, text⟩, rfl⟩ := Option.isSome_iff_exists.mp <| Artifact.render?_isSome hr he
    have hm := hin name text rfl
    have hres := (hi.rendering hp hrs hm).left
    exact ⟨name, text, (Artifact.render?_name hr).symm, hr, hs.isFile ht hm hres,
      fun hcr => (hs.isCurrent ht hm hres hcr).readText⟩
  case right =>
    intro d hd name hx hf
    by_contra hw
    have hm := hd.mem_directories
    have hname : name ≠ ".." := by
      rintro rfl
      rw [hp] at hx
      exact absurd hx <| by decide
    have hres := (hi.directories hm).left.child hname
    have ⟨hb, hshort⟩ := (Tree.isFile_iff hs.wellFormed hres).mp hf
    obtain ⟨names, he, _, _, hstale⟩ :=
      staleIn_ok hs.wellFormed (hi.directories hm).left (hclear d hm)
    obtain rfl : names = [] := List.map_eq_nil_iff.mp he.symm
    have := (hstale name).mpr ⟨hb, hshort, renderings_paths hrs ▸ hw, hx⟩
    simp at this

-- A directory with an artifact that nothing stands for, and with another file.
def oldTree : Tree :=
  ((Tree.empty.set ["__generated__"] .directory).set ["__generated__", "Old.graphql.js"]
    (.file [])).set ["__generated__", "notes.txt"] (.file [])

def oldPath : Path :=
  ⟨"/", ["__generated__", "Old.graphql.js"]⟩

theorem oldTree_wellFormed : oldTree.WellFormed := by
  have hd : (Tree.empty.set ["__generated__"] .directory).WellFormed :=
    (Tree.Became.set .empty (by decide) (by decide) (by decide) (by decide)).wellFormed
  have ho : ((Tree.empty.set ["__generated__"] .directory).set
      ["__generated__", "Old.graphql.js"] (.file [])).WellFormed :=
    (Tree.Became.set hd (by decide) (by decide) (by decide) (by decide)).wellFormed
  exact (Tree.Became.set ho (by decide) (by decide) (by decide) (by decide)).wellFormed

theorem staleIn_of_get? (ht : t.WellFormed) (hd : directory.IsResolved)
    (hg : t.get? directory.parts = some .directory)
    (hl : ∀ part ∈ directory.parts, ¬ Tree.isTooLong part) :
    ∃ stale, staleIn t suffix written directory = .ok stale := by
  simp [staleIn, Tree.walk_of_get? ht hd hg hl, hg]

-- The run is followed step by step, as sorting the names in the directory does not compute.
theorem oldTree_run : ∃ c u, run idSettings false idInput oldTree = (.ok c, u) := by
  have h : (exec ([⟨idPath, Flow.moduleText idModule⟩].foldlM (put false) .none)
      oldTree).1.toOption = some ⟨[idPath], [], [], []⟩ := by
    decide +kernel
  obtain ⟨t₁, hw⟩ := exec_of_toOption h
  have hr : idPath.IsResolved := by
    unfold Path.IsResolved
    decide
  have ⟨_, hs⟩ := put_agrees oldTree_wellFormed (.refl oldTree_wellFormed) (by simpa using hr)
    (by simp) hw
  have hdirs : directories idSettings idInput.documents = [⟨"/", ["__generated__"]⟩] := by
    decide +kernel
  have ⟨stale, hst⟩ : ∃ stale, staleIn t₁ (Artifact.suffix .javascript) [idPath]
      ⟨"/", ["__generated__"]⟩ = .ok stale :=
    staleIn_of_get? hs.wellFormed (by simp [Path.IsResolved]) (hs.directory (by decide))
      (by decide +kernel)
  have hd : exec ([⟨"/", ["__generated__"]⟩].foldlM (deleteStale false
      (Artifact.suffix .javascript) [idPath]) ⟨[idPath], [], [], []⟩) t₁ =
        (.ok ⟨[idPath], [], stale, []⟩, stale.foldl remove t₁) := by
    rw [List.foldlM_cons, exec_bind_of_ok <| exec_deleteStale_ok.mpr ⟨stale, hst, rfl, rfl⟩]
    rfl
  exact ⟨_, _, run_ok_iff.mpr ⟨_, _, t₁, idInput_renderings, hw, hdirs ▸ hd⟩⟩

theorem idPath_eq : Artifact.path idSettings ⟨"/", ["a.graphql"]⟩ "Q" = idPath := by
  decide +kernel

theorem in_sync_idQuery : ∃ c u, run idSettings false idInput oldTree = (.ok c, u) ∧
    u.readText idPath = .ok (Flow.moduleText idModule) ∧ oldTree.isFile oldPath ∧
    ¬ u.isFile oldPath := by
  obtain ⟨c, u, h⟩ := oldTree_run
  have ⟨⟨s, hv, hall⟩, hclear⟩ :=
    run_in_sync rfl idInput_placed (by decide +kernel) oldTree_wellFormed h
  have hf : ⟨⟨"/", ["a.graphql"]⟩, [idQuery]⟩ ∈ idInput.documents := List.mem_singleton.mpr rfl
  have hd : idQuery ∈ [idQuery] := List.mem_singleton.mpr rfl
  refine ⟨c, u, h, ?_, by decide +kernel, fun hold => ?_⟩
  case refine_1 =>
    obtain ⟨name, text, hn, hr, _, hread⟩ := hall _ hf _ hd (by decide)
    obtain rfl : "Q" = name := Option.some.inj hn
    have hrs : Artifact.renderAll idSettings s idInput.executables idInput.documents =
        .ok [⟨idPath, Flow.moduleText idModule⟩] := by
      simpa [WriterInput.renderings, hv, bind, Except.bind] using idInput_renderings
    obtain ⟨rendered, hr', hin⟩ := Artifact.renderAll_mem hrs hf hd
    have hm := hin "Q" text <| Except.ok.inj <| hr'.symm.trans hr
    rw [List.mem_singleton, Rendering.mk.injEq] at hm
    rw [idPath_eq, hm.right] at hread
    exact hread idModule_text
  case refine_2 =>
    have hm := hclear ⟨"/", ["__generated__"]⟩ ⟨_, hf, by decide⟩ "Old.graphql.js"
      (by decide +kernel) hold
    exact absurd hm <| by decide +kernel

-- Writing what is there

theorem exec_put_of_isCurrent (h : IsCurrent t r) : exec (put onlyValidate c r) t =
    (.ok { c with unchanged := c.unchanged ++ [r.path] }, t) := by
  unfold put write
  rw [exec_bind_of_ok (exec_get t), h, exec_bind_of_ok (exec_liftM _ _)]
  simp

theorem exec_putAll_of_isCurrent (h : ∀ r ∈ rs, IsCurrent t r) :
    exec (rs.foldlM (put onlyValidate) c) t =
      (.ok { c with unchanged := c.unchanged ++ rs.map Rendering.path }, t) := by
  induction rs generalizing c
  case nil => simp
  case cons r rs hi =>
    rw [List.forall_mem_cons] at h
    rw [List.foldlM_cons, exec_bind_of_ok <| exec_put_of_isCurrent h.left, hi h.right]
    simp

theorem exec_deleteAll_of_clear (h : ∀ d ∈ dirs, staleIn t suffix written d = .ok []) :
    exec (dirs.foldlM (deleteStale onlyValidate suffix written) c) t = (.ok c, t) := by
  induction dirs generalizing c
  case nil => simp
  case cons d dirs hi =>
    rw [List.forall_mem_cons] at h
    rw [List.foldlM_cons]
    have hd : exec (deleteStale onlyValidate suffix written c d) t = (.ok c, t) :=
      exec_deleteStale_ok.mpr ⟨[], h.left, by simp, by simp⟩
    rw [exec_bind_of_ok hd, hi h.right]

-- A write right after another one, in either mode, finds every artifact unchanged and leaves the
-- tree alone.
theorem run_again (hp : settings.plugin = .javascript) (hi : Placed settings source i)
    (hn : (i.artifactPaths settings).Nodup) (ht : t.WellFormed)
    (hcr : ∀ rs, i.renderings settings = .ok rs → ∀ r ∈ rs, '\r' ∉ r.text.toList)
    (h : run settings false i t = (.ok c, u)) (onlyValidate : Bool) :
    run settings onlyValidate i u = (.ok ⟨[], [], [], i.artifactPaths settings⟩, u) := by
  obtain ⟨rs, hrs, hs, hclear⟩ := run_clears hp hi hn ht h
  have hcurrent : ∀ r ∈ rs, IsCurrent u r := fun r hm =>
    hs.isCurrent ht hm (hi.rendering hp hrs hm).left (hcr rs hrs r hm)
  refine run_ok_iff.mpr ⟨rs, _, u, hrs, exec_putAll_of_isCurrent hcurrent, ?_⟩
  rw [exec_deleteAll_of_clear hclear, renderings_paths hrs]
  rfl

theorem run_again_idQuery : ∃ c u, run idSettings false idInput oldTree = (.ok c, u) ∧
    ∀ onlyValidate, run idSettings onlyValidate idInput u = (.ok ⟨[], [], [], [idPath]⟩, u) := by
  obtain ⟨c, u, h⟩ := oldTree_run
  have hcr : ∀ rs, idInput.renderings idSettings = .ok rs → ∀ r ∈ rs, '\r' ∉ r.text.toList := by
    intro rs hrs r hr
    obtain rfl := Except.ok.inj <| idInput_renderings.symm.trans hrs
    rw [List.mem_singleton.mp hr]
    exact idModule_text
  have hpaths : idInput.artifactPaths idSettings = [idPath] := by
    decide +kernel
  refine ⟨c, u, h, fun onlyValidate => hpaths ▸ ?_⟩
  exact run_again rfl idInput_placed (by decide +kernel) oldTree_wellFormed hcr h onlyValidate

end ArtifactWriter

end GraphqlArtifacts
