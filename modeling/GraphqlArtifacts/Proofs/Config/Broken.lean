import GraphqlArtifacts.Proofs.Config.Load
import GraphqlArtifacts.Proofs.Files.Walk

namespace GraphqlArtifacts

namespace Tree

variable {t : Tree} {above : List String} {directory : Path} {name other : String}
  {content : List UInt8}

-- A tree that lost one of the files in a directory, and nothing else there.
structure Lacks (t u : Tree) (directory : Path) (name : String) : Prop where
  absent : u.hasEntry (directory.child name) = .ok false
  others : ∀ other ≠ name, t.look (directory.child other) = u.look (directory.child other)

-- Of the places that a path in a directory can lead through, the tree without a file of the
-- directory has all others.
theorem get?_erase_child (hl : above.length ≤ (directory.child name).parts.length)
    (hn : above ≠ (directory.child name).parts) :
    (t.erase (directory.child name).parts).get? above = t.get? above := by
  rw [get?_erase, if_neg]
  rintro ⟨-, hp⟩
  exact hn (hp.eq_of_length_le hl).symm

theorem walk_erase_child : (t.erase (directory.child name).parts).walk []
    (directory.child other).parts = t.walk [] (directory.child other).parts := by
  have hs : ([] : List String).length + (directory.child other).parts.length ≤
      (directory.child name).parts.length := by
    simp [Path.child]
  refine walk_congr (fun above ha => get?_erase_child (Nat.le_of_lt ha) ?_) hs
  rintro rfl
  exact Nat.lt_irrefl _ ha

theorem look_erased (hp : (directory.child name).IsResolved)
    (h : t.readBytes (directory.child name) = .ok content) :
    (t.erase (directory.child name).parts).look (directory.child name) = .error .notFound := by
  have hl := look_of_readBytes h
  unfold look at hl ⊢
  rw [walk_erase_child]
  rcases hw : t.walk [] (directory.child name).parts with fault | place <;> rw [hw] at hl
  case error => cases hl
  case ok =>
    obtain rfl : place = (directory.child name).parts := by simpa using (walk_ok hp hw).left
    simp [bind, Except.bind, get?_erase, Path.child]

theorem look_erase_other (hp : directory.IsResolved) (ho : other ≠ name) :
    (t.erase (directory.child name).parts).look (directory.child other) =
      t.look (directory.child other) := by
  unfold look
  rw [walk_erase_child]
  rcases hw : t.walk [] (directory.child other).parts with fault | place
  case error => rfl
  case ok =>
    have hg : (t.erase (directory.child name).parts).get? place = t.get? place := by
      have hl : (directory.child name).parts.length = directory.parts.length + 1 := by
        simp [Path.child]
      obtain rfl | rfl := walk_child hp hw
      case inl =>
        have hs : directory.parts.dropLast.length ≤ directory.parts.length := by simp
        exact get?_erase_child (by omega) fun he => by rw [he] at hs; omega
      case inr => exact get?_erase_child (by simp [hl]) <| by simpa [Path.child] using ho
    simp only [bind, Except.bind, hg]

theorem lacks_erase (hp : directory.IsResolved) (hn : name ≠ "..")
    (h : t.readBytes (directory.child name) = .ok content) :
    Lacks t (t.erase (directory.child name).parts) directory name where
  absent := by simp [hasEntry, look_erased (hp.child hn) h]
  others := fun _ ho => (look_erase_other hp ho).symm

end Tree

namespace ConfigFile

variable {t u : Tree} {p directory : Path} {name text : String} {content : List UInt8}
  {x : Utf8.Error}

-- The bytes of a text in the syntax of configuration files.
def IsDocument (content : List UInt8) : Prop :=
  ∃ text, Utf8.decode content = .ok text ∧ (Toml.read text).isSome

theorem document_congr (h : t.look p = u.look p) : document t p = document u p := by
  simp only [document, Tree.hasEntry, Tree.readBytes, h]

theorem document_of_absent (h : t.hasEntry p = .ok false) : document t p = .ok none := by
  rw [document, h]
  rfl

theorem document_of_readBytes (h : t.readBytes p = .ok content) :
    document t p = ((Utf8.decode content).mapError .notText).map Toml.read := by
  have hl : t.hasEntry p = .ok true := by
    simp only [Tree.hasEntry, Tree.look_of_readBytes h]
  rcases hu : Utf8.decode content <;> simp only [document, hl, h, hu] <;> rfl

-- Text that is no document.
theorem document_of_text (h : t.readBytes p = .ok content) (hb : ¬ IsDocument content)
    (ht : Utf8.decode content = .ok text) : document t p = .ok none := by
  have hn : Toml.read text = none := by
    rw [← Option.not_isSome_iff_eq_none]
    exact fun hs => hb ⟨text, ht, hs⟩
  rw [document_of_readBytes h, ht]
  exact congrArg Except.ok hn

theorem document_of_bytes (h : t.readBytes p = .ok content)
    (hx : Utf8.decode content = .error x) : document t p = .error (.notText x) := by
  rw [document_of_readBytes h, hx]
  rfl

theorem own_congr (h : document t (directory.child ownName) = document u (directory.child ownName)) :
    own t directory = own u directory := by
  rw [own, own, h]

theorem project_congr
    (h : document t (directory.child projectName) = document u (directory.child projectName)) :
    project t directory = project u directory := by
  rw [project, project, h]

end ConfigFile

open ConfigFile

namespace Settings

variable {t u : Tree} {directory : Path} {name : String} {content : List UInt8} {x : Utf8.Error}

-- The settings depend on a file only by the document in it.
theorem load_congr (hl : Tree.Lacks t u directory name)
    (hd : document t (directory.child name) = document u (directory.child name)) (e : Environment) :
    load t directory e = load u directory e := by
  have hall (other : String) : document t (directory.child other) =
      document u (directory.child other) := by
    by_cases ho : other = name
    case pos => rwa [ho]
    case neg => exact document_congr (hl.others other ho)
  rw [load, load, project_congr (hall _), own_congr (hall _)]

-- Bytes that are no text stop the settings from being loaded, where nothing else does.
theorem load_notText (hl : Tree.Lacks t u directory name) (hn : name = ownName ∨ name = projectName)
    (hd : document t (directory.child name) = .error (.notText x)) (e : Environment) :
    (∀ s, load t directory e ≠ .ok s) ∧
      ∀ s, load u directory e = .ok s → load t directory e = .error (.notText x) := by
  obtain rfl | rfl := hn
  case inr =>
    have hp : project t directory = .error (.notText x) := by
      rw [project, hd]
      rfl
    have ht : load t directory e = .error (.notText x) := by
      rw [load, hp]
      rfl
    simp [ht]
  case inl =>
    have hp : project t directory = project u directory :=
      project_congr <| document_congr <| hl.others _ (by decide)
    have ho : own t directory = .error (.notText x) := by
      rw [own, hd]
      rfl
    rw [load, load, hp, ho]
    rcases project u directory with fault | found
    case error => simp [bind, Except.bind]
    case ok    => simp [bind, Except.bind]

-- A file that is no document is ignored exactly if its bytes are text: then the settings are those
-- without the file. Other bytes are a fault.
theorem load_broken (hl : Tree.Lacks t u directory name) (hn : name = ownName ∨ name = projectName)
    (hr : t.readBytes (directory.child name) = .ok content) (hb : ¬ IsDocument content)
    (e : Environment) :
    ((∃ text, Utf8.decode content = .ok text) → load t directory e = load u directory e) ∧
      ∀ x, Utf8.decode content = .error x → (∀ s, load t directory e ≠ .ok s) ∧
        ∀ s, load u directory e = .ok s → load t directory e = .error (.notText x) := by
  refine ⟨fun ⟨text, ht⟩ => load_congr hl ?_ e, fun x hx => ?_⟩
  case refine_1 => rw [document_of_text hr hb ht, document_of_absent hl.absent]
  case refine_2 => exact load_notText hl hn (document_of_bytes hr hx) e

-- A project whose own file sets an option, and whose other file holds what it does.
def mixedTree (content : List UInt8) : Tree :=
  ⟨[([ownName], .file (Utf8.encode "verbose = true\n")), ([projectName], .file content)]⟩

theorem not_isDocument_unfinished : ¬ IsDocument (Utf8.encode "[tool") := by
  rintro ⟨text, hd, hs⟩
  have ht : Utf8.decode (Utf8.encode "[tool") = .ok "[tool" := by decide +kernel
  obtain rfl := Except.ok.inj <| ht.symm.trans hd
  revert hs
  decide +kernel

theorem mixedTree_lacks (content : List UInt8) : Tree.Lacks (mixedTree content)
    ((mixedTree content).erase [projectName]) ⟨"/", []⟩ projectName :=
  @Tree.lacks_erase (mixedTree content) ⟨"/", []⟩ projectName content (by simp [Path.IsResolved])
    (by decide) rfl

-- A table whose name does not end sets nothing.
theorem load_unfinished :
    load (mixedTree <| Utf8.encode "[tool") ⟨"/", []⟩ [] =
      load ((mixedTree <| Utf8.encode "[tool").erase [projectName]) ⟨"/", []⟩ [] :=
  (load_broken (mixedTree_lacks _) (.inr rfl) rfl not_isDocument_unfinished []).left
    ⟨"[tool", by decide +kernel⟩

-- A single byte that is no text stops what could be loaded without it.
theorem load_undecodable :
    (∃ s, load ((mixedTree [0xff]).erase [projectName]) ⟨"/", []⟩ [] = .ok s) ∧
      ∃ x, load (mixedTree [0xff]) ⟨"/", []⟩ [] = .error (.notText x) := by
  have hc : Contents ((mixedTree [0xff]).erase [projectName]) ⟨"/", []⟩ (verboseEntries true) [] :=
    { ownHeld      := .inl <| ok_of_toOption <| by decide +kernel
      projectHeld  := ⟨[], .inr ⟨document_of_absent (mixedTree_lacks _).absent, rfl⟩, rfl⟩
      ownTyped     := verboseEntries_isTyped true
      projectTyped := nofun }
  have ⟨s, hs⟩ : ∃ s, load ((mixedTree [0xff]).erase [projectName]) ⟨"/", []⟩ [] = .ok s :=
    ⟨_, load_merged hc []⟩
  have ⟨x, hx⟩ : ∃ x, Utf8.decode [0xff] = .error x := ⟨_, rfl⟩
  have hd := document_of_bytes (t := mixedTree [0xff]) (p := ⟨"/", [projectName]⟩) rfl hx
  exact ⟨⟨s, hs⟩, x, (load_notText (mixedTree_lacks _) (.inr rfl) hd []).right s hs⟩

end Settings

end GraphqlArtifacts
