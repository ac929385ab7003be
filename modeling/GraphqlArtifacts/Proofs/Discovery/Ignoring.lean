import GraphqlArtifacts.Proofs.Discovery.Scan
import GraphqlArtifacts.Proofs.Files.Walk

-- Ignore files. Each one rules what is below its own directory, and all that they do is to take
-- away files from those of a search.

namespace GraphqlArtifacts

open Search (pathText)

namespace IgnoreFile

-- The bytes of an ignore file are no text, or rules that can be read and have an expression.
def IsValid (content : List UInt8) : Prop :=
  ∀ text, Utf8.decodeFrom 0 content = .ok text →
    ∃ rules, readRules ((Utf8.normalizeLineEnds text).splitOn '\n') = .ok rules ∧
      ∀ rule ∈ rules, rule.expression.isSome

variable {file : IgnoreFile} {path text : List Char} {content : List UInt8}

theorem isValid_of_decodeFrom (hd : Utf8.decodeFrom 0 content = .ok text)
    (h : (readRules ((Utf8.normalizeLineEnds text).splitOn '\n')).toOption.any
      (·.all (·.expression.isSome))) : IsValid content := by
  intro text' hd'
  obtain rfl := Except.ok.inj <| hd.symm.trans hd'
  cases hr : (readRules ((Utf8.normalizeLineEnds text).splitOn '\n')).toOption
  case none       => simp [hr] at h
  case some rules => exact ⟨rules, ok_of_toOption hr, by simpa [hr] using h⟩

-- Rules that all have an expression tell of every path whether it is ignored.
theorem ignores_ok (h : ∀ rule ∈ file.rules, rule.expression.isSome) :
    ∃ b, file.ignores path = .ok b := by
  have hgo : ∀ rules : List IgnoreRule, (∀ rule ∈ rules, rule.expression.isSome) →
      ∃ b, ignores.go path rules = .ok b := by
    intro rules hr
    induction rules
    case nil => exact ⟨false, rfl⟩
    case cons rule rules hi =>
      rw [List.forall_mem_cons] at hr
      have ⟨r, hr'⟩ := Option.isSome_iff_exists.mp hr.left
      have ⟨b, hb⟩ : ∃ b, rule.matchesPath path = .ok b := by simp [IgnoreRule.matchesPath, hr']
      rw [ignores.go, hb]
      cases b
      case true  => exact ⟨!rule.negated, rfl⟩
      case false => exact hi hr.right
  exact hgo _ (by simpa using h)

end IgnoreFile

namespace Tree

-- The ignore file in a directory has some rules. One that is no text has none.
def HoldsRules (t : Tree) (directory : List String) (rules : List IgnoreRule) : Prop :=
  ∃ content text, t.get? (directory ++ [IgnoreFile.name]) = some (.file content) ∧
    Utf8.decodeFrom 0 content = .ok text ∧
    IgnoreFile.readRules ((Utf8.normalizeLineEnds text).splitOn '\n') = .ok rules

-- All rules of the ignore files at or below a place can be read and applied.
def HasValidRules (t : Tree) (place : List String) : Prop :=
  ∀ directory content, t.get? (place ++ directory ++ [IgnoreFile.name]) = some (.file content) →
    IgnoreFile.IsValid content

-- An ignore file above a path ignores it. Its rules look at the path from its own directory.
def Ignores (t : Tree) (place parts : List String) : Prop :=
  ∃ directory below rules, parts = directory ++ below ∧ t.HoldsRules (place ++ directory) rules ∧
    (⟨directory, rules⟩ : IgnoreFile).ignores (pathText below).toList = .ok true

variable {t t' : Tree} {place parts directory : List String} {e : Entry} {content : List UInt8}
  {file : IgnoreFile} {files : List IgnoreFile} {rules : List IgnoreRule} {base : Path}

theorem HasValidRules.set (h : t.HasValidRules place) (hc : IgnoreFile.IsValid content) :
    (t.set (directory ++ [IgnoreFile.name]) (.file content)).HasValidRules place := by
  intro above content' hg
  rw [get?_set (by simp)] at hg
  split at hg
  case isTrue  => exact Entry.file.inj (Option.some.inj hg) ▸ hc
  case isFalse => exact h above content' hg

-- An entry is an ignore file with some rules.
def IsIgnoreFile (entry : List String × Entry) (file : IgnoreFile) : Prop :=
  ∃ content text, entry = (file.directory ++ [IgnoreFile.name], .file content) ∧
    Utf8.decodeFrom 0 content = .ok text ∧
    IgnoreFile.readRules ((Utf8.normalizeLineEnds text).splitOn '\n') = .ok file.rules

theorem not_isIgnoreFile_of_name (h : parts.getLast? ≠ some IgnoreFile.name) :
    ¬ IsIgnoreFile (parts, e) file := by
  rintro ⟨_, _, he, _⟩
  cases he
  simp at h

theorem not_isIgnoreFile_of_bytes {fault : Utf8.Error}
    (h : Utf8.decodeFrom 0 content = .error fault) :
    ¬ IsIgnoreFile (parts, .file content) file := by
  rintro ⟨_, _, he, hd, _⟩
  cases he
  cases h.symm.trans hd

theorem isIgnoreFile_iff {text : List Char} (hd : Utf8.decodeFrom 0 content = .ok text)
    (hr : IgnoreFile.readRules ((Utf8.normalizeLineEnds text).splitOn '\n') = .ok rules) :
    IsIgnoreFile (directory ++ [IgnoreFile.name], .file content) file ↔
      file = ⟨directory, rules⟩ := by
  constructor
  case mpr =>
    rintro rfl
    exact ⟨content, text, rfl, hd, hr⟩
  case mp =>
    rintro ⟨content', text', he, hd', hr'⟩
    have ⟨hp, he⟩ := Prod.mk.inj he
    obtain rfl := Entry.file.inj he
    obtain rfl := Except.ok.inj <| hd.symm.trans hd'
    have hfile := Except.ok.inj <| hr.symm.trans hr'
    rw [List.append_left_inj] at hp
    rw [hp, hfile]

-- The ignore files among some entries, if each of them is no text or has rules that can be read.
theorem exists_ignoreFiles (hv : ∀ directory content text,
    (directory ++ [IgnoreFile.name], .file content) ∈ t.entriesBelow place →
    Utf8.decodeFrom 0 content = .ok text → ∃ rules,
      IgnoreFile.readRules ((Utf8.normalizeLineEnds text).splitOn '\n') = .ok rules) :
    ∃ files, t.ignoreFiles place = .ok files ∧
      ∀ file, file ∈ files ↔ ∃ entry ∈ t.entriesBelow place, IsIgnoreFile entry file := by
  unfold ignoreFiles
  generalize t.entriesBelow place = entries at hv
  induction entries
  case nil => exact ⟨[], rfl, by simp⟩
  case cons entry entries hi =>
    have ⟨files, hf, hm⟩ := hi fun _ _ _ hm => hv _ _ _ (List.mem_cons_of_mem _ hm)
    rw [List.foldrM_cons, hf]
    have hsame (hn : ∀ file, ¬ IsIgnoreFile entry file) : ∀ file, file ∈ files ↔
        ∃ entry' ∈ entry :: entries, IsIgnoreFile entry' file := by
      simp [hm, hn]
    rcases entry with ⟨parts, _ | content⟩
    case directory => exact ⟨files, rfl, hsame fun file ⟨_, _, he, _⟩ => nomatch he⟩
    case file =>
      by_cases hname : parts.getLast? = some IgnoreFile.name
      case neg =>
        exact ⟨files, by simp [hname, bind, Except.bind, pure, Except.pure],
          hsame fun _ => not_isIgnoreFile_of_name hname⟩
      case pos =>
        obtain ⟨directory, rfl⟩ := List.getLast?_eq_some_iff.mp hname
        cases hd : Utf8.decodeFrom 0 content
        case error =>
          exact ⟨files, by simp [hd, bind, Except.bind, pure, Except.pure],
            hsame fun _ => not_isIgnoreFile_of_bytes hd⟩
        case ok text =>
          have ⟨rules, hr⟩ := hv _ _ _ (List.mem_cons_self ..) hd
          refine ⟨⟨directory, rules⟩ :: files, ?_, by simp [hm, isIgnoreFile_iff hd hr]⟩
          simp [hd, hr, bind, Except.bind, pure, Except.pure]

theorem ignoreFiles_ok (ht : t.WellFormed) (hv : t.HasValidRules place) :
    ∃ files, t.ignoreFiles place = .ok files ∧
      (∀ file ∈ files, ∀ rule ∈ file.rules, rule.expression.isSome) ∧
      ∀ file, file ∈ files ↔ t.HoldsRules (place ++ file.directory) file.rules := by
  have ⟨files, hf, hm⟩ := @exists_ignoreFiles t place fun directory content text hm hd => by
    have hg := ((mem_entriesBelow ht).mp hm).right
    exact (hv directory content (by simpa using hg) text hd).imp fun _ hr => hr.left
  have hholds (file : IgnoreFile) :
      file ∈ files ↔ t.HoldsRules (place ++ file.directory) file.rules := by
    simp [hm, IsIgnoreFile, HoldsRules, mem_entriesBelow ht]
  refine ⟨files, hf, fun file hmem => ?_, hholds⟩
  obtain ⟨content, text, hg, hd, hr⟩ := (hholds file).mp hmem
  have ⟨rules, hr', hvalid⟩ := hv _ content hg text hd
  rwa [Except.ok.inj <| hr.symm.trans hr']

theorem isIgnored_decides (hr : ∀ file ∈ files, ∀ rule ∈ file.rules, rule.expression.isSome)
    (hm : ∀ file, file ∈ files ↔ t.HoldsRules (place ++ file.directory) file.rules) :
    Decides (isIgnored files parts) (t.Ignores place parts) := by
  have hd : ∀ file ∈ files.filter fun file => file.directory.isPrefixOf parts,
      Decides (file.ignores (pathText (parts.drop file.directory.length)).toList)
        (file.ignores (pathText (parts.drop file.directory.length)).toList = .ok true) := by
    intro file hf
    have ⟨b, hb⟩ := @IgnoreFile.ignores_ok file (pathText (parts.drop file.directory.length)).toList
      (hr file <| List.mem_of_mem_filter hf)
    exact ⟨b, hb, by simp [hb]⟩
  refine (Decides.anyOrFault hd).congr ?_
  simp only [List.mem_filter, List.isPrefixOf_iff_prefix, hm, Ignores]
  constructor
  case mp =>
    rintro ⟨⟨directory, rules⟩, ⟨hh, below, rfl⟩, hi⟩
    exact ⟨directory, below, rules, rfl, hh, by simpa using hi⟩
  case mpr =>
    rintro ⟨directory, below, rules, rfl, hh, hi⟩
    exact ⟨⟨directory, rules⟩, ⟨hh, below, rfl⟩, by simpa using hi⟩

-- A path leads to a directory, in which a search can start.
structure IsSearched (t : Tree) (base : Path) : Prop where
  walked : t.walk [] base.parts = .ok (Path.foldParents base.parts)
  directory : t.get? (Path.foldParents base.parts) = some .directory

-- Two trees that differ in the ignore file of one directory only. Each may have it or not.
structure DifferAt (t t' : Tree) (directory : List String) : Prop where
  same : ∀ place, place ≠ directory ++ [IgnoreFile.name] → t.get? place = t'.get? place
  left : t.get? (directory ++ [IgnoreFile.name]) ≠ some .directory
  right : t'.get? (directory ++ [IgnoreFile.name]) ≠ some .directory

namespace DifferAt

-- A tree and the same with another ignore file in a directory.
theorem set (content : List UInt8) (h : t.get? (directory ++ [IgnoreFile.name]) ≠ some .directory) :
    DifferAt t (t.set (directory ++ [IgnoreFile.name]) (.file content)) directory where
  same place hp := by simp [get?_set, hp]
  left := h
  right := by simp [get?_set]

theorem symm (h : DifferAt t t' directory) : DifferAt t' t directory where
  same place hp := (h.same place hp).symm
  left := h.right
  right := h.left

theorem directory_iff (h : DifferAt t t' directory) :
    t.get? place = some .directory ↔ t'.get? place = some .directory := by
  by_cases hp : place = directory ++ [IgnoreFile.name]
  case pos => simp [hp, h.left, h.right]
  case neg => rw [h.same place hp]

-- No way leads through the ignore file.
theorem isSearched (h : DifferAt t t' directory) (hs : t.IsSearched base) : t'.IsSearched base where
  walked := walk_mono h.directory_iff.mp hs.walked nofun nofun
  directory := h.directory_iff.mp hs.directory

theorem holdsRules (h : DifferAt t t' directory) (hn : place ≠ directory)
    (hr : t.HoldsRules place rules) : t'.HoldsRules place rules := by
  have ⟨content, text, hg, hd, hread⟩ := hr
  exact ⟨content, text, h.same (place ++ [IgnoreFile.name]) (by simpa using hn) ▸ hg, hd, hread⟩

theorem ignores (h : DifferAt t t' directory) (ho : ¬ directory <+: place ++ parts)
    (hi : t.Ignores place parts) : t'.Ignores place parts := by
  obtain ⟨above, below, rules, rfl, hr, hi⟩ := hi
  refine ⟨above, below, rules, rfl, h.holdsRules ?_ hr, hi⟩
  rintro rfl
  exact ho ⟨below, by simp⟩

end DifferAt

end Tree

open Search

variable {t t' : Tree} {s : Search} {base : Path} {place parts directory : List String}
  {path : String}

namespace Search

-- The names in a path.
def namesOf (path : String) : List String :=
  (Glob.splitSlashes path.toList).map String.ofList

theorem namesOf_pathText (hp : AreNames parts) (hn : parts ≠ []) :
    namesOf (pathText parts) = parts := by
  simp [namesOf, splitSlashes_pathText hp hn]

end Search

-- The names in a path tell what leads to the file.
theorem filesBelow_filter [DecidablePred s.Finds] {p : List String → Prop} [DecidablePred p]
    (ht : t.WellFormed) (hn : t.IsNamed) :
    (filesBelow t s place).filter (fun path => p (namesOf path)) =
      (t.entriesBelow place).filterMap fun entry =>
        if entry.2.isFile ∧ s.Finds entry.1 ∧ p entry.1 then some (pathText entry.1) else none := by
  rw [filesBelow, List.filter_filterMap]
  refine List.filterMap_congr ?_
  rintro ⟨parts, e⟩ hm
  obtain ⟨hne, hg⟩ := (Tree.mem_entriesBelow ht).mp hm
  have hnames := namesOf_pathText (Tree.areNames_below ht hn hne hg) hne
  by_cases hf : e.isFile ∧ s.Finds parts
  case pos => by_cases hp : p parts <;> simp [hf, hp, hnames]
  case neg =>
    have hf' : ¬ (e.isFile ∧ s.Finds parts ∧ p parts) := fun hf' => hf ⟨hf'.left, hf'.right.left⟩
    simp [hf, hf']

theorem findFiles_respecting_eq [DecidablePred s.Finds] [DecidablePred (t.Ignores place)]
    (ht : t.WellFormed) (hn : t.IsNamed) (h : s.IsScannable) (hv : t.HasValidRules place)
    (hw : t.walk [] base.parts = .ok place) (hd : t.get? place = some .directory) :
    findFiles t base s true = .ok (sortTexts <|
      (filesBelow t s place).filter fun path => ¬ t.Ignores place (namesOf path)) := by
  have ⟨files, hf, hr, hm⟩ := Tree.ignoreFiles_ok ht hv
  have hi (parts : List String) : Decides (isIgnored files parts) (t.Ignores place parts) :=
    Tree.isIgnored_decides hr hm
  rw [filesBelow_filter (p := fun parts => ¬ t.Ignores place parts) ht hn]
  simp only [findFiles, hw, hd, bne_self_eq_false, Bool.false_eq_true, if_false, if_true]
  refine bind_ok.mpr ⟨files, mapError_ok.mpr hf, bind_ok.mpr ⟨_, filterMapM_ok ?_, rfl⟩⟩
  rintro ⟨parts, e⟩ hm
  obtain ⟨hp, hg⟩ := (Tree.mem_entriesBelow ht).mp hm
  cases e
  case directory =>
    obtain ⟨b, hb⟩ := @selects_directory s parts h
    simp [hb, Except.mapError, bind, Except.bind, Entry.isFile, pure, Except.pure]
  case file content =>
    have hs := @selects_file s parts content h (Tree.areNames_below ht hn hp hg) hp
    by_cases hfinds : s.Finds parts
    case neg =>
      simp [hs.eq_of_not hfinds, hfinds, Except.mapError, bind, Except.bind, pure, Except.pure]
    case pos =>
      by_cases hignored : t.Ignores place parts
      case pos =>
        simp [hs.eq_of hfinds, (hi parts).eq_of hignored, hignored, Except.mapError, bind,
          Except.bind, Entry.isFile, pure, Except.pure]
      case neg =>
        simp [hs.eq_of hfinds, (hi parts).eq_of_not hignored, hfinds, hignored, Except.mapError,
          bind, Except.bind, Entry.isFile, pure, Except.pure]

-- Where there is no directory to search, nothing is found.
theorem findFiles_of_not_isSearched {respectIgnoreFiles : Bool} (h : ¬ t.IsSearched base) :
    findFiles t base s respectIgnoreFiles = .ok [] := by
  cases hw : t.walk [] base.parts
  case error => simp [findFiles, hw, pure, Except.pure]
  case ok place =>
    obtain rfl := Tree.walk_eq_foldParents hw
    have hd : t.get? (Path.foldParents base.parts) ≠ some .directory := fun hd => h ⟨hw, hd⟩
    simp [findFiles, hw, hd, pure, Except.pure]

-- All that ignore files do is to take away files.
theorem findFiles_sublist {files : List String} (h : findFiles t base s true = .ok files) :
    ∃ all, findFiles t base s false = .ok all ∧ files.Sublist all := by
  by_cases hs : t.IsSearched base
  case neg =>
    rw [findFiles_of_not_isSearched hs] at h ⊢
    exact ⟨files, h, List.Sublist.refl _⟩
  case pos =>
    have ⟨hw, hd⟩ := hs
    simp only [findFiles, hw, hd, bne_self_eq_false, Bool.false_eq_true, if_false, if_true] at h ⊢
    obtain ⟨ignoreFiles, _, h⟩ := bind_ok.mp h
    obtain ⟨found, hf, h⟩ := bind_ok.mp h
    cases h
    have hsub := filterMapM_sublist (g := fun entry => do
      let selected ← (s.selects entry.1 entry.2).mapError .pattern
      if selected && entry.2.isFile then
        let ignored ← (isIgnored [] entry.1).mapError .ignoreRule
        return if ignored then none else some (pathText entry.1)
      else
        return none) ?step hf
    case step =>
      rintro ⟨parts, e⟩ _ b hb
      obtain ⟨selected, hs, hb⟩ := bind_ok.mp hb
      simp only [hs]
      split at hb
      case isFalse hn =>
        cases hb
        exact ⟨none, bind_ok.mpr ⟨_, rfl, if_neg hn⟩, .inl rfl⟩
      case isTrue hp =>
        obtain ⟨ignored, _, hb⟩ := bind_ok.mp hb
        refine ⟨some (pathText parts), bind_ok.mpr ⟨_, rfl, if_pos hp⟩, ?_⟩
        cases ignored <;> cases hb
        case true  => exact .inr rfl
        case false => exact .inl rfl
    obtain ⟨all, ha, hl⟩ := hsub
    exact ⟨sortTexts all, bind_ok.mpr ⟨[], rfl, bind_ok.mpr ⟨all, ha, rfl⟩⟩, sortTexts_sublist hl⟩

-- Without ignore files nothing is taken away.
theorem findFiles_of_noIgnoreFiles (ht : t.WellFormed)
    (h : ∀ below, t.get? (Path.foldParents base.parts ++ below ++ [IgnoreFile.name]) = none) :
    findFiles t base s true = findFiles t base s false := by
  by_cases hs : t.IsSearched base
  case neg => rw [findFiles_of_not_isSearched hs, findFiles_of_not_isSearched hs]
  case pos =>
    have ⟨hw, hd⟩ := hs
    have hv : t.HasValidRules (Path.foldParents base.parts) := by
      intro below _ hg
      cases (h below).symm.trans hg
    have ⟨files, hf, _, hm⟩ := Tree.ignoreFiles_ok ht hv
    have hnil : files = [] := by
      refine List.eq_nil_iff_forall_not_mem.mpr fun file hmem => ?_
      obtain ⟨_, _, hg, _⟩ := (hm file).mp hmem
      cases (h file.directory).symm.trans hg
    subst hnil
    simp only [findFiles, hw, hd, hf, bne_self_eq_false, Bool.false_eq_true, if_false, if_true]
    rfl

-- A path from a place that leads to nothing in a directory.
def LiesOutside (directory place : List String) (path : String) : Prop :=
  ¬ directory <+: place ++ namesOf path

instance : DecidablePred (LiesOutside directory place) :=
  fun _ => inferInstanceAs (Decidable (¬ _))

-- What is found outside the directory in one tree is found in the other.
theorem mem_outside [DecidablePred s.Finds] [DecidablePred (t.Ignores place)]
    [DecidablePred (t'.Ignores place)] (ht : t.WellFormed) (ht' : t'.WellFormed) (hn : t.IsNamed)
    (hd : t.get? place = some .directory) (h : t.DifferAt t' directory)
    (ho : LiesOutside directory place path)
    (hm : path ∈ (filesBelow t s place).filter fun path => ¬ t.Ignores place (namesOf path)) :
    path ∈ (filesBelow t' s place).filter fun path => ¬ t'.Ignores place (namesOf path) := by
  simp only [List.mem_filter, mem_filesBelow ht hd, mem_filesBelow ht' (h.directory_iff.mp hd),
    decide_eq_true_eq] at hm ⊢
  obtain ⟨⟨parts, content, hg, hf, rfl⟩, hi⟩ := hm
  obtain ⟨hp, hne⟩ := Tree.areNames_of_file ht hn hd hg
  rw [LiesOutside, namesOf_pathText hp hne] at ho
  rw [namesOf_pathText hp hne] at hi ⊢
  have hplace : place ++ parts ≠ directory ++ [IgnoreFile.name] := by
    intro he
    exact ho ⟨_, he.symm⟩
  exact ⟨⟨parts, content, h.same _ hplace ▸ hg, hf, rfl⟩, fun hi' => hi <| h.symm.ignores ho hi'⟩

theorem nodup_kept [DecidablePred s.Finds] {p q : String → Bool} (ht : t.WellFormed)
    (hn : t.IsNamed) : ((sortTexts <| (filesBelow t s place).filter p).filter q).Nodup :=
  ((sortTexts_perm _).nodup_iff.mpr <| (nodup_filesBelow ht hn).filter p).filter q

-- The ignore file of one directory does not change what is found outside the directory.
theorem findFiles_outside (ht : t.WellFormed) (ht' : t'.WellFormed) (hn : t.IsNamed)
    (hn' : t'.IsNamed) (h : s.IsScannable) (hv : t.HasValidRules (Path.foldParents base.parts))
    (hv' : t'.HasValidRules (Path.foldParents base.parts)) (hdiff : t.DifferAt t' directory) :
    ∃ files files', findFiles t base s true = .ok files ∧ findFiles t' base s true = .ok files' ∧
      files.filter (LiesOutside directory (Path.foldParents base.parts)) =
        files'.filter (LiesOutside directory (Path.foldParents base.parts)) := by
  classical
  by_cases hs : t.IsSearched base
  case neg =>
    have hs' : ¬ t'.IsSearched base := fun hs' => hs <| hdiff.symm.isSearched hs'
    exact ⟨[], [], findFiles_of_not_isSearched hs, findFiles_of_not_isSearched hs', rfl⟩
  case pos =>
    have ⟨hw, hd⟩ := hs
    have ⟨hw', hd'⟩ := hdiff.isSearched hs
    refine ⟨_, _, findFiles_respecting_eq ht hn h hv hw hd,
      findFiles_respecting_eq ht' hn' h hv' hw' hd', ?_⟩
    refine textBefore_isOrder.eq_of_pairwise ((sortTexts_inOrder _).filter _)
      ((sortTexts_inOrder _).filter _) <| (List.perm_ext_iff_of_nodup ?_ ?_).mpr fun path => ?_
    case refine_1 => exact nodup_kept ht hn
    case refine_2 => exact nodup_kept ht' hn'
    case refine_3 =>
      simp only [List.mem_filter (p := fun path => decide (LiesOutside _ _ path)),
        (sortTexts_perm _).mem_iff, decide_eq_true_eq]
      refine and_congr_left fun ho => ⟨?_, ?_⟩
      case refine_1 => exact mem_outside ht ht' hn hd hdiff ho
      case refine_2 => exact mem_outside ht' ht hn' hd' hdiff.symm ho

-- An ignore file rules what is below its directory: whatever it says, or if there is none, the rest
-- of what is found is the same. What is found is a part of what is found without ignore files, in
-- the same order, and all of it if there are none.
theorem findFiles_ignoring (ht : t.WellFormed) :
    (∀ t' directory, t'.WellFormed → t.IsNamed → t'.IsNamed → s.IsScannable →
      t.HasValidRules (Path.foldParents base.parts) →
      t'.HasValidRules (Path.foldParents base.parts) → t.DifferAt t' directory →
      ∃ files files', findFiles t base s true = .ok files ∧ findFiles t' base s true = .ok files' ∧
        files.filter (LiesOutside directory (Path.foldParents base.parts)) =
          files'.filter (LiesOutside directory (Path.foldParents base.parts))) ∧
    (∀ files, findFiles t base s true = .ok files →
      ∃ all, findFiles t base s false = .ok all ∧ files.Sublist all) ∧
    ((∀ below, t.get? (Path.foldParents base.parts ++ below ++ [IgnoreFile.name]) = none) →
      findFiles t base s true = findFiles t base s false) :=
  ⟨fun _ _ ht' hn hn' h hv hv' hdiff => findFiles_outside ht ht' hn hn' h hv hv' hdiff,
    fun _ => findFiles_sublist, findFiles_of_noIgnoreFiles ht⟩

def libraryTree : Tree :=
  ⟨[(["src"], .directory), (["src", "App.js"], .file []), (["src", "lib"], .directory),
    (["src", "lib", "api.js"], .file []), (["src", "lib", "old.js"], .file [])]⟩

-- All modules are ignored but one.
def libraryRules : List UInt8 :=
  Utf8.encode "*.js\n!api.js\n"

theorem findFiles_library :
    libraryTree.WellFormed ∧
    ∃ files files', findFiles libraryTree ⟨"/", ["src"]⟩ ⟨["js"], ["**"], []⟩ true = .ok files ∧
      findFiles (libraryTree.set (["src", "lib"] ++ [IgnoreFile.name]) (.file libraryRules))
        ⟨"/", ["src"]⟩ ⟨["js"], ["**"], []⟩ true = .ok files' ∧
      files.filter (LiesOutside ["src", "lib"] ["src"]) =
        files'.filter (LiesOutside ["src", "lib"] ["src"]) := by
  have ht : libraryTree.WellFormed := .ofEntries (by decide) (by decide +kernel)
  have ht' : (libraryTree.set (["src", "lib"] ++ [IgnoreFile.name])
      (.file libraryRules)).WellFormed := .ofEntries (by decide) (by decide +kernel)
  have hv : libraryTree.HasValidRules (Path.foldParents ["src"]) := by
    intro directory content hg
    have hm : (["src"] ++ directory ++ [IgnoreFile.name], .file content) ∈ libraryTree.entries :=
      ht.mem_entries_iff.mpr ⟨by simp, hg⟩
    have hlast : ∀ entry ∈ libraryTree.entries, entry.1.getLast? ≠ some IgnoreFile.name := by decide
    exact absurd List.getLast?_concat (hlast _ hm)
  have hrules : IgnoreFile.IsValid libraryRules :=
    @IgnoreFile.isValid_of_decodeFrom "*.js\n!api.js\n".toList libraryRules (by decide +kernel)
      (by decide +kernel)
  have ⟨houtside, _⟩ := @findFiles_ignoring libraryTree ⟨["js"], ["**"], []⟩ ⟨"/", ["src"]⟩ ht
  exact ⟨ht, houtside _ ["src", "lib"] ht'
    (Tree.isNamed_iff.mpr <| by decide) (Tree.isNamed_iff.mpr <| by decide)
    (isScannable_of_noSets <| by decide) hv (hv.set hrules) (.set _ <| by decide)⟩

end GraphqlArtifacts
