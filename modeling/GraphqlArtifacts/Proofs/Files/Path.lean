import Mathlib.Data.List.Basic
import Mathlib.Data.List.Induction
import GraphqlArtifacts.Files.Path

namespace GraphqlArtifacts

theorem Glob.splitSlashes_of_not_mem {s : List Char} (h : '/' ∉ s) : splitSlashes s = [s] := by
  induction s
  case nil => rfl
  case cons c s hi =>
    simp only [List.mem_cons, not_or] at h
    simp [splitSlashes, Ne.symm h.left, hi h.right]

theorem Glob.splitSlashes_append {s s' part : List Char} {parts : List (List Char)} (h : '/' ∉ s)
    (hs : splitSlashes s' = part :: parts) : splitSlashes (s ++ s') = (s ++ part) :: parts := by
  induction s
  case nil => exact hs
  case cons c s hi =>
    simp only [List.mem_cons, not_or] at h
    simp [splitSlashes, Ne.symm h.left, hi h.right]

theorem Glob.exists_splitSlashes (s : List Char) :
    ∃ part parts, splitSlashes s = part :: parts := by
  cases s
  case nil => exact ⟨_, _, rfl⟩
  case cons c s =>
    unfold splitSlashes
    split
    case isTrue => exact ⟨_, _, rfl⟩
    case isFalse => split <;> exact ⟨_, _, rfl⟩

namespace Path

variable {p directory : Path} {name file : String} {parts : List String}

-- A path without double dots leads to the place that its names are.
def IsResolved (p : Path) : Prop :=
  ".." ∉ p.parts

theorem IsResolved.parent (h : p.IsResolved) : p.parent.IsResolved :=
  fun hm => h <| List.dropLast_subset _ hm

theorem IsResolved.child (h : p.IsResolved) (hn : name ≠ "..") : (p.child name).IsResolved := by
  simpa [IsResolved, Path.child, Ne.symm hn] using h

theorem foldParents_concat : foldParents (parts ++ [name]) =
    if name = ".." then (foldParents parts).dropLast else foldParents parts ++ [name] := by
  simp [foldParents]

theorem foldParents_subset (parts : List String) : foldParents parts ⊆ parts := by
  induction parts using List.reverseRecOn
  case nil => simp [foldParents]
  case append_singleton parts name hi =>
    intro part hm
    rw [foldParents_concat] at hm
    split at hm
    case isTrue => exact List.mem_append_left _ <| hi <| List.dropLast_subset _ hm
    case isFalse => exact List.mem_append.mpr <| (List.mem_append.mp hm).imp_left (hi ·)

theorem dotDot_not_mem_foldParents (parts : List String) : ".." ∉ foldParents parts := by
  induction parts using List.reverseRecOn
  case nil => simp [foldParents]
  case append_singleton parts name hi =>
    rw [foldParents_concat]
    split
    case isTrue => exact fun hm => hi <| List.dropLast_subset _ hm
    case isFalse hn => simpa [Ne.symm hn] using hi

theorem foldParents_of_not_mem (h : ".." ∉ parts) : foldParents parts = parts := by
  induction parts using List.reverseRecOn
  case nil => rfl
  case append_singleton parts name hi =>
    rw [List.mem_append, List.mem_singleton, not_or] at h
    rw [foldParents_concat, if_neg (Ne.symm h.right), hi h.left]

theorem isResolved_normalize (p : Path) : p.normalize.IsResolved :=
  dotDot_not_mem_foldParents p.parts

@[simp]
theorem name_child : (p.child name).name = name := by
  simp [Path.name, child]

@[simp]
theorem parent_child : (p.child name).parent = p := by
  simp [Path.parent, child]

theorem eq_of_parts {q : Path} (hr : p.root = q.root) (hp : p.parts = q.parts) : p = q := by
  cases p
  cases q
  simp_all

theorem pairwise_parts {paths : List Path} {root : String} (hr : ∀ p ∈ paths, p.root = root)
    (hn : paths.Nodup) : paths.Pairwise fun p q => p.parts ≠ q.parts :=
  hn.imp_of_mem fun hp hq hne he => hne <| eq_of_parts ((hr _ hp).trans (hr _ hq).symm) he

theorem ofText_of_not_mem (hs : '/' ∉ name.toList) (he : name ≠ "") (hd : name ≠ ".") :
    ofText name = ⟨"", [name]⟩ := by
  have hr : rootOf name.toList = "" := by
    unfold rootOf
    split <;> simp_all
  have he : name.toList ≠ [] := by simpa using he
  have hd : name.toList ≠ ['.'] := fun h => hd <| String.toList_inj.mp h
  simp [ofText, hr, partsOf, Glob.splitSlashes_of_not_mem hs, he, hd]

theorem join_of_not_mem (hs : '/' ∉ name.toList) (he : name ≠ "") (hd : name ≠ ".") :
    p.join name = p.child name := by
  simp [join, ofText_of_not_mem hs he hd, isAbsolute, child]

-- A name with an end, which may have slashes, leads from a directory to a place that tells both.
theorem exists_join_append (ending : String) : ∃ (file : String → String) (below : List String),
    (∀ {name name'}, file name = file name' → name = name') ∧
      ∀ (p : Path) (name : String), '/' ∉ name.toList → name ≠ "" → name ≠ "." →
        p.join (name ++ ending) = ⟨p.root, p.parts ++ file name :: below⟩ := by
  obtain ⟨part, parts, hp⟩ := Glob.exists_splitSlashes ending.toList
  refine ⟨fun name => String.ofList (name.toList ++ part),
    (parts.filter fun part => part ≠ [] ∧ part ≠ ['.']).map String.ofList, ?_, ?_⟩
  case refine_1 =>
    intro name name' h
    exact String.toList_inj.mp <| List.append_cancel_right <| String.ofList_injective h
  case refine_2 =>
    intro p name hs he hd
    have he : name.toList ≠ [] := by simpa using he
    have hd : name.toList ++ part ≠ ['.'] := by
      intro h
      obtain ⟨hn, _⟩ | ⟨hn, _⟩ := List.append_eq_singleton_iff.mp h
      · exact he hn
      · exact hd <| String.toList_inj.mp hn
    have hr : rootOf (name ++ ending).toList = "" := by
      obtain ⟨c, rest, hn⟩ := List.exists_cons_of_ne_nil he
      have hc : c ≠ '/' := fun hc => hs <| by simp [hn, hc]
      rw [String.toList_append, hn, List.cons_append]
      unfold rootOf
      split <;> simp_all
    have hq : partsOf (name ++ ending).toList = String.ofList (name.toList ++ part) ::
        (parts.filter fun part => part ≠ [] ∧ part ≠ ['.']).map String.ofList := by
      rw [partsOf, String.toList_append, Glob.splitSlashes_append hs hp]
      simp [he, hd]
    rw [join, ofText, hr, hq]
    rfl

-- The text of a relative path without double dots.
def LeadsDown (file : String) : Prop :=
  ¬ (ofText file).isAbsolute ∧ (ofText file).IsResolved

-- A path of a directory joined with the text of a relative path without double dots.
def IsBelow (directory p : Path) : Prop :=
  ∃ file, p = directory.join file ∧ ¬ (ofText file).isAbsolute ∧ (ofText file).IsResolved

theorem IsBelow.root_eq (h : directory.IsBelow p) : p.root = directory.root := by
  obtain ⟨file, rfl, ha, _⟩ := h
  simp [join, ha]

theorem IsBelow.isResolved (h : directory.IsBelow p) (hd : directory.IsResolved) :
    p.IsResolved := by
  obtain ⟨file, rfl, ha, hf⟩ := h
  simpa [join, ha, IsResolved] using ⟨hd, hf⟩

end Path

end GraphqlArtifacts
