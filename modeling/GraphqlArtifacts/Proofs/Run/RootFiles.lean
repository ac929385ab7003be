import GraphqlArtifacts.Proofs.Except
import GraphqlArtifacts.Proofs.Files.Walk
import GraphqlArtifacts.Run.Validation

namespace GraphqlArtifacts

namespace Tree

variable {t : Tree} {p directory : Path} {parts more place : List String}
  {root marker : String}

-- A directory with an entry that marks it.
def HoldsMarker (t : Tree) (place : List String) : Prop :=
  ∃ marker ∈ rootMarkers, ∃ e, t.look ⟨"/", place ++ [marker]⟩ = .ok e

-- The names on the way to a directory are not too long, as far as there is a way.
def IsPassable (t : Tree) (parts : List String) : Prop :=
  t.walk [] parts ≠ .error .nameTooLong

theorem IsPassable.left (h : t.IsPassable (parts ++ more)) : t.IsPassable parts := by
  intro ha
  rw [IsPassable, walk_append, ha] at h
  exact h rfl

theorem look_marker_tooLong_iff (hm : marker ∈ rootMarkers) :
    t.look (directory.child marker) = .error .nameTooLong ↔ ¬ t.IsPassable directory.parts := by
  have hshort : ∀ marker ∈ rootMarkers, marker ≠ ".." ∧ ¬ isTooLong marker := by decide
  have ⟨hdots, hlong⟩ := hshort marker hm
  rw [IsPassable, not_not, look_tooLong_iff, Path.child, walk_append]
  cases t.walk [] directory.parts
  case error => simp [Except.bind]
  case ok here =>
    rcases hg : t.get? here with _ | ⟨_ | _⟩ <;> simp [Except.bind, walk, hg, hdots, hlong]

theorem hasEntry_marker (h : t.IsPassable directory.parts) (hm : marker ∈ rootMarkers) :
    t.hasEntry (directory.child marker) = .ok (t.look (directory.child marker)).isOk := by
  have hl := (look_marker_tooLong_iff hm).not.mpr <| not_not.mpr h
  unfold hasEntry
  rcases hk : t.look (directory.child marker) with ⟨_ | _⟩ | _ <;> first | rfl | exact absurd hk hl

theorem isOk_marker_iff : (rootMarkers.any fun marker => (t.look (directory.child marker)).isOk) ↔
    t.HoldsMarker directory.parts := by
  rw [List.any_eq_true]
  refine exists_congr fun marker => and_congr_right fun _ => ?_
  change (t.look ⟨"/", directory.parts ++ [marker]⟩).isOk ↔ _
  cases t.look ⟨"/", directory.parts ++ [marker]⟩ <;> simp [Except.isOk, Except.toBool]

theorem hasMarker_ok (h : t.IsPassable directory.parts) :
    ∃ found, t.hasMarker directory = .ok found ∧ (found ↔ t.HoldsMarker directory.parts) :=
  ⟨_, anyM_ok fun _ hm => hasEntry_marker h hm, isOk_marker_iff⟩

theorem hasMarker_error (h : ¬ t.IsPassable directory.parts) :
    t.hasMarker directory = .error ⟨.nameTooLong, directory.child ".git"⟩ := by
  have hm : ".git" ∈ rootMarkers := by decide
  have hl := (look_marker_tooLong_iff hm).mpr h
  rw [hasMarker, rootMarkers, List.anyM_cons, hasEntry_error_iff.mpr ⟨hl, rfl⟩]
  rfl

theorem parent_concat {name : String} :
    Path.parent ⟨root, parts ++ [name]⟩ = ⟨root, parts⟩ := by
  simp [Path.parent]

-- The climb goes on to the parent until a path is its own parent, whatever its bound.
theorem hasMarkerAbove_length (t : Tree) (directory : Path) :
    t.hasMarkerAbove directory directory.parts.length =
      if directory.parent = directory then .ok false
      else t.hasMarker directory >>= fun here =>
        if here then .ok true
        else t.hasMarkerAbove directory.parent directory.parent.parts.length := by
  obtain ⟨root, parts⟩ := directory
  obtain rfl | ⟨parts, name, rfl⟩ := parts.eq_nil_or_concat'
  case inl => exact (if_pos rfl).symm
  case inr =>
    change t.hasMarkerAbove _ (parts ++ [name]).length = _
    rw [parent_concat, if_neg (by simp), List.length_append, List.length_singleton, hasMarkerAbove,
      parent_concat]
    rfl

-- The climb meets a directory and those above it, but for the last one.
theorem hasMarkerAbove_ok (h : t.IsPassable parts) :
    ∃ found, t.hasMarkerAbove ⟨root, parts⟩ parts.length = .ok found ∧
      (found ↔ ∃ place, place <+: parts ∧ place ≠ [] ∧ t.HoldsMarker place) := by
  induction parts using List.reverseRecOn
  case nil => exact ⟨false, rfl, by simp⟩
  case append_singleton parts name hi =>
    have ⟨here, hhere, hmarker⟩ := @hasMarker_ok t ⟨root, parts ++ [name]⟩ h
    have ⟨found, habove, hfound⟩ := hi h.left
    rw [t.hasMarkerAbove_length ⟨root, _⟩, parent_concat, if_neg (by simp), hhere]
    cases here
    case true =>
      exact ⟨true, rfl, iff_of_true rfl ⟨_, List.prefix_rfl, by simp, hmarker.mp rfl⟩⟩
    case false =>
      refine ⟨found, habove, hfound.trans <| exists_congr fun place => ?_⟩
      rw [List.prefix_concat_iff, or_and_right, iff_or_self]
      rintro ⟨rfl, _, hp⟩
      exact absurd (hmarker.mpr hp) <| by simp

theorem hasMarkerAbove_error (h : ¬ t.IsPassable parts) :
    t.hasMarkerAbove ⟨root, parts⟩ parts.length =
      .error ⟨.nameTooLong, ⟨root, parts ++ [".git"]⟩⟩ := by
  obtain rfl | ⟨parts, name, rfl⟩ := parts.eq_nil_or_concat'
  case inl => simp [IsPassable, walk] at h
  case inr =>
    rw [t.hasMarkerAbove_length ⟨root, _⟩, parent_concat, if_neg (by simp), hasMarker_error h]
    rfl

theorem hasRootFile_ok (h : t.IsPassable p.normalize.parts) :
    ∃ found, t.hasRootFile p = .ok found ∧
      (found ↔ ∃ place, place <+: p.normalize.parts ∧ place ≠ [] ∧ t.HoldsMarker place) :=
  hasMarkerAbove_ok h

theorem hasRootFile_error (h : ¬ t.IsPassable p.normalize.parts) :
    t.hasRootFile p = .error ⟨.nameTooLong, p.normalize.child ".git"⟩ :=
  hasMarkerAbove_error h

-- A marker is found in the directory and in those above it other than the root. So the search tells
-- whether any of them has one exactly if no name is too long, and a marker of the root is not the
-- only one.
theorem hasRootFile_covers_iff (t : Tree) (p : Path) :
    (∀ found, t.hasRootFile p = .ok found →
      (found ↔ ∃ place, place <+: p.normalize.parts ∧ place ≠ [] ∧ t.HoldsMarker place)) ∧
    ((∃ found, t.hasRootFile p = .ok found ∧
        (found ↔ ∃ place, place <+: p.normalize.parts ∧ t.HoldsMarker place)) ↔
      t.IsPassable p.normalize.parts ∧ (t.HoldsMarker [] →
        ∃ place, place <+: p.normalize.parts ∧ place ≠ [] ∧ t.HoldsMarker place)) := by
  by_cases hp : t.IsPassable p.normalize.parts
  case neg => simp [hasRootFile_error hp, hp]
  case pos =>
    have ⟨found, hr, hf⟩ := hasRootFile_ok hp
    simp only [hr, Except.ok.injEq, exists_eq_left', forall_eq', hf, hp, true_and]
    refine ⟨fun h hroot => ?_, fun h => ?_⟩
    case refine_1 => exact h.mpr ⟨[], List.nil_prefix, hroot⟩
    case refine_2 =>
      refine ⟨fun ⟨place, hpre, _, hm⟩ => ⟨place, hpre, hm⟩, fun ⟨place, hpre, hm⟩ => ?_⟩
      by_cases hne : place = []
      case pos => exact h <| hne ▸ hm
      case neg => exact ⟨place, hpre, hne, hm⟩

-- Projects in a directory: once only the root is marked, once the directory itself is.
def markedTree (place : List String) : Tree :=
  ⟨[(["app"], .directory), (place ++ [".git"], .directory)]⟩

def longName : String :=
  String.ofList (List.replicate 256 'a')

theorem length_longName : longName.length = 256 :=
  String.length_ofList.trans List.length_replicate

-- A marker in the root is not found. Above a name that is too long none is looked for.
theorem hasRootFile_overlooks :
    ((markedTree []).HoldsMarker [] ∧ (markedTree []).hasRootFile ⟨"/", ["app"]⟩ = .ok false) ∧
    (markedTree ["app"]).HoldsMarker ["app"] ∧
      (markedTree ["app"]).hasRootFile ⟨"/", ["app", longName]⟩ =
        .error ⟨.nameTooLong, ⟨"/", ["app", longName, ".git"]⟩⟩ := by
  have hn : Path.normalize ⟨"/", ["app", longName]⟩ = ⟨"/", ["app", longName]⟩ := by
    decide +kernel
  have hname : isTooLong longName ∧ longName ≠ ".." := by
    refine ⟨isTooLong_of_length ?_, fun he => ?_⟩
    case refine_1 => rw [length_longName]; decide
    case refine_2 => exact absurd (he ▸ length_longName) (by decide)
  have hlong : ¬ (markedTree ["app"]).IsPassable ["app", longName] := by
    have happ : isTooLong "app" = false := by decide
    simp [IsPassable, markedTree, walk, get?, happ, hname]
  refine ⟨⟨⟨".git", by decide, .directory, rfl⟩, rfl⟩, ⟨".git", by decide, .directory, rfl⟩, ?_⟩
  rw [hasRootFile_error, hn]
  · rfl
  · rwa [hn]

end Tree

end GraphqlArtifacts
