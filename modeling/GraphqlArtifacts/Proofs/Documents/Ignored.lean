import GraphqlArtifacts.Documents.DocumentFile
import GraphqlArtifacts.Proofs.Except
import GraphqlArtifacts.Proofs.Text.CharClass

-- Files that are a document as a whole, but have nothing in them that the syntax counts. A file of
-- white space holds no document. One with a comment, a comma or a byte-order mark is malformed.

namespace GraphqlArtifacts

namespace Graphql

def lineEnds : List Char :=
  ['\n', '\r']

def spaces : List Char :=
  [' ', '\t'] ++ lineEnds

def IsSpace (s : List Char) : Prop :=
  ∀ c ∈ s, c ∈ spaces

instance : DecidablePred IsSpace :=
  fun s => List.decidableBAll (· ∈ spaces) s

-- A text of nothing but what stands between tokens. A comment goes on to the end of its line.
inductive IsIgnorable : List Char → Prop
  | nil : IsIgnorable []
  | char {c s} : c ∈ spaces ++ [',', '\ufeff'] → IsIgnorable s → IsIgnorable (c :: s)
  | comment {line s} : (∀ c ∈ line, c ∉ lineEnds) → (∀ c ∈ s.head?, c ∈ lineEnds) →
    IsIgnorable s → IsIgnorable ('#' :: (line ++ s))

variable {c : Char} {s line : List Char} {text : String}

theorem isIgnored_iff : isIgnored c ↔ c ∈ spaces ++ [',', '\ufeff'] := by
  simp only [isIgnored, spaces, lineEnds, Bool.or_eq_true, beq_iff_eq, List.cons_append,
    List.nil_append, List.mem_cons, List.not_mem_nil, or_false]
  tauto

theorem skipIgnored_char (h : isIgnored c) : skipIgnored (c :: s) false = skipIgnored s false := by
  have hc : c ≠ '#' := by
    rintro rfl
    exact absurd h (by decide)
  simp [skipIgnored, hc, h]

theorem skipIgnored_lineEnd (h : c ∈ lineEnds) :
    skipIgnored (c :: s) true = skipIgnored s false := by
  simp only [lineEnds, List.mem_cons, List.not_mem_nil, or_false] at h
  obtain rfl | rfl := h <;> rfl

theorem skipIgnored_inLine (h : c ∉ lineEnds) :
    skipIgnored (c :: s) true = skipIgnored s true := by
  have hc : (c != '\n' && c != '\r') = true := by simpa [lineEnds] using h
  rw [skipIgnored, if_pos rfl, hc]

-- A comment leaves the end of its line, which is ignored in its turn.
theorem skipIgnored_line (hl : ∀ c ∈ line, c ∉ lineEnds) (hs : ∀ c ∈ s.head?, c ∈ lineEnds) :
    skipIgnored (line ++ s) true = skipIgnored s false := by
  induction line
  case cons c line hi =>
    rw [List.forall_mem_cons] at hl
    rw [List.cons_append, skipIgnored_inLine hl.left, hi hl.right]
  case nil =>
    cases s
    case nil => rfl
    case cons c s =>
      have hc : c ∈ lineEnds := hs c rfl
      have hi : isIgnored c := isIgnored_iff.mpr <| by simp [spaces, hc]
      rw [List.nil_append, skipIgnored_lineEnd hc, skipIgnored_char hi]

theorem IsIgnorable.skipIgnored (h : IsIgnorable s) : skipIgnored s false = [] := by
  induction h
  case nil => rfl
  case char hc _ hi => rw [skipIgnored_char <| isIgnored_iff.mpr hc, hi]
  case comment hl hs _ hi =>
    rw [Graphql.skipIgnored, if_neg Bool.false_ne_true, if_pos rfl, skipIgnored_line hl hs, hi]

-- What is skipped is ignorable, within a comment from the end of the line on.
theorem ignorable_of_skipIgnored : (skipIgnored s false = [] → IsIgnorable s) ∧
    (skipIgnored s true = [] → ∃ line rest, s = line ++ rest ∧ (∀ c ∈ line, c ∉ lineEnds) ∧
      (∀ c ∈ rest.head?, c ∈ lineEnds) ∧ IsIgnorable rest) := by
  induction s
  case nil => exact ⟨fun _ => .nil, fun _ => ⟨[], [], rfl, by simp, by simp, .nil⟩⟩
  case cons c s hi =>
    constructor
    case left =>
      intro h
      rw [skipIgnored, if_neg Bool.false_ne_true] at h
      split at h
      case isTrue hc =>
        obtain ⟨line, rest, rfl, hl, hr, hg⟩ := hi.right h
        exact hc ▸ .comment hl hr hg
      case isFalse =>
        split at h
        case isTrue hc  => exact .char (isIgnored_iff.mp hc) (hi.left h)
        case isFalse hc => cases h
    case right =>
      intro h
      by_cases hc : c ∈ lineEnds
      case pos =>
        rw [skipIgnored_lineEnd hc] at h
        have hg : IsIgnorable (c :: s) := .char (by simp [spaces, hc]) (hi.left h)
        exact ⟨[], c :: s, rfl, by simp, by simpa using hc, hg⟩
      case neg =>
        rw [skipIgnored_inLine hc] at h
        obtain ⟨line, rest, rfl, hl, hr, hg⟩ := hi.right h
        exact ⟨c :: line, rest, rfl, List.forall_mem_cons.mpr ⟨hc, hl⟩, hr, hg⟩

theorem isIgnorable_iff : IsIgnorable s ↔ skipIgnored s false = [] :=
  ⟨IsIgnorable.skipIgnored, ignorable_of_skipIgnored.left⟩

instance : DecidablePred IsIgnorable :=
  fun _ => decidable_of_iff _ isIgnorable_iff.symm

-- A text without tokens is no document: its end comes where a definition has to stand.
theorem parse_ignorable (h : IsIgnorable text.toList) :
    parse text = .error ⟨.unexpected "<EOF>", text.toList.length⟩ := by
  have ht : tokenize text.toList = ⟨[⟨.endOfFile, text.toList.length, ""⟩], none⟩ := by
    simp [tokenize, scan, h.skipIgnored, readToken]
  simp [parse, ht]
  rfl

-- Of the texts without tokens, those of white space are blank.
theorem trimBlank_ignorable_iff (h : IsIgnorable s) : trimBlank s = [] ↔ IsSpace s := by
  have hspaces {c : Char} : c ∈ spaces ↔ c ∈ spaces ++ [',', '\ufeff'] ∧ isBlank c := by
    have hf : (spaces ++ [',', '\ufeff']).filter isBlank = spaces := by decide
    rw [← List.mem_filter, hf]
  rw [trimBlank_eq_nil_iff]
  refine ⟨fun hs => ?_, fun hs c hm => (hspaces.mp <| hs c hm).right⟩
  induction h
  case nil => simp [IsSpace]
  case char hc _ hi =>
    rw [List.forall_mem_cons] at hs
    exact List.forall_mem_cons.mpr ⟨hspaces.mpr ⟨hc, hs.left⟩, hi hs.right⟩
  case comment =>
    rw [List.forall_mem_cons] at hs
    exact absurd hs.left (by decide)

end Graphql

namespace DocumentReader

open Graphql (IsIgnorable IsSpace)

variable {t : Tree} {base : Path} {file other text : String} {files : List String}
  {e : Graphql.SyntaxError}

-- The file can be read, and nothing in it counts.
def IsVacant (t : Tree) (base : Path) (file : String) : Prop :=
  ∃ text, t.readText (base.join file) = .ok text ∧ IsIgnorable text.toList

instance : DecidablePred (IsVacant t base) := fun file =>
  match hr : t.readText (base.join file) with
  | .ok text => decidable_of_iff (IsIgnorable text.toList)
    ⟨fun h => ⟨text, hr, h⟩, fun ⟨_, hr', h⟩ => Except.ok.inj (hr'.symm.trans hr) ▸ h⟩
  | .error _ => .isFalse fun ⟨_, hr', _⟩ => nomatch hr'.symm.trans hr

theorem definitions?_ignorable (h : IsIgnorable text.toList) : documents.definitions? file text =
    if IsSpace text.toList then .ok none
    else .error (.document file ⟨.unexpected "<EOF>", text.toList.length⟩) := by
  have hb := Graphql.trimBlank_ignorable_iff h
  by_cases hs : IsSpace text.toList
  case pos =>
    simp only [definitions?, hb.mpr hs, hs, if_true]
    rfl
  case neg =>
    simp only [definitions?, List.isEmpty_iff, hb, hs, if_false, Graphql.parse_ignorable h]
    rfl

theorem parseFile_ignorable (hr : t.readText (base.join file) = .ok text)
    (h : IsIgnorable text.toList) : documents.parseFile t base file =
      if IsSpace text.toList then .ok none
      else .error (.document file ⟨.unexpected "<EOF>", text.toList.length⟩) := by
  have hd := @definitions?_ignorable file text h
  by_cases hs : IsSpace text.toList
  case pos =>
    rw [if_pos hs] at hd ⊢
    exact bind_ok.mpr ⟨text, mapError_ok.mpr hr, bind_ok.mpr ⟨none, hd, rfl⟩⟩
  case neg =>
    rw [if_neg hs] at hd ⊢
    exact bind_error.mpr <| .inr ⟨text, mapError_ok.mpr hr, bind_error.mpr <| .inl hd⟩

-- A fault in a document names the file that has it.
theorem parseFile_document (h : documents.parseFile t base file = .error (.document other e)) :
    other = file := by
  obtain h | ⟨text, _, h⟩ := bind_error.mp h
  case inl =>
    obtain ⟨_, _, h⟩ := mapError_error.mp h
    cases h
  case inr =>
    obtain h | ⟨_, _, h⟩ := bind_error.mp h
    case inr => cases h
    case inl =>
      simp only [definitions?] at h
      split at h
      case isTrue => cases h
      case isFalse =>
        obtain h | ⟨_, _, h⟩ := bind_error.mp h
        case inr => cases h
        case inl =>
          obtain ⟨_, _, h⟩ := mapError_error.mp h
          cases h
          rfl

-- Leaving out the files without anything that counts changes the outcome of a parse exactly if it
-- is that one of them is malformed.
theorem parseAll_occupied_iff : documents.parseAll t base (files.filter (¬ IsVacant t base ·)) =
      documents.parseAll t base files ↔
    ∀ file e, IsVacant t base file →
      documents.parseAll t base files ≠ .error (.document file e) := by
  let P (fault : DocumentFault) : Prop := ∃ file e, IsVacant t base file ∧ fault = .document file e
  have hk : ∀ file, decide (¬ IsVacant t base file) → ∀ fault, P fault →
      documents.parseFile t base file ≠ .error fault := by
    rintro file hm _ ⟨other, e, hv, rfl⟩ h
    exact of_decide_eq_true hm <| parseFile_document h ▸ hv
  have hd : ∀ file, ¬ decide (¬ IsVacant t base file) → documents.parseFile t base file = .ok none ∨
      ∃ fault, P fault ∧ documents.parseFile t base file = .error fault := by
    intro file hm
    have hv : IsVacant t base file := by simpa using hm
    have ⟨text, hr, hi⟩ := hv
    rw [parseFile_ignorable hr hi]
    split
    case isTrue  => exact .inl rfl
    case isFalse => exact .inr ⟨_, ⟨file, _, hv, rfl⟩, rfl⟩
  simp only [parseAll, filterMapM_filter_iff hk hd, P, forall_exists_index, and_imp]
  exact ⟨fun h file e hv => h _ file e hv rfl, fun h _ file e hv he => he ▸ h file e hv⟩

-- A file without anything that counts holds no document if it is of white space, and is malformed
-- otherwise. So leaving out such files, or adding some, never changes the outcome of a parse if and
-- only if all of them are of white space.
theorem parse_vacant_iff (t : Tree) (base : Path) :
    (∀ file text, t.readText (base.join file) = .ok text → IsIgnorable text.toList →
      documents.parseFile t base file =
        if IsSpace text.toList then .ok none
        else .error (.document file ⟨.unexpected "<EOF>", text.toList.length⟩)) ∧
    ((∀ files others : List String, files.filter (¬ IsVacant t base ·) =
        others.filter (¬ IsVacant t base ·) →
        documents.parseAll t base files = documents.parseAll t base others) ↔
      ∀ file text, t.readText (base.join file) = .ok text → IsIgnorable text.toList →
        IsSpace text.toList) := by
  refine ⟨fun file text => parseFile_ignorable, fun h file text hr hi => ?_, fun h => ?_⟩
  case refine_1 =>
    by_contra hs
    have hv : IsVacant t base file := ⟨text, hr, hi⟩
    have hone := h [file] [] (by simp [hv])
    rw [parseAll, List.filterMapM_cons, parseFile_ignorable hr hi, if_neg hs] at hone
    cases hone
  case refine_2 =>
    have hsame (files : List String) :
        documents.parseAll t base (files.filter (¬ IsVacant t base ·)) =
          documents.parseAll t base files := by
      refine parseAll_occupied_iff.mpr fun other e ⟨text, hr, hi⟩ he => ?_
      have ⟨file, _, hf⟩ := mem_of_filterMapM_error he
      obtain rfl := parseFile_document hf
      rw [parseFile_ignorable hr hi, if_pos <| h other text hr hi] at hf
      cases hf
    exact fun files others he => (hsame files).symm.trans <| he ▸ hsame others

def draftTree : Tree :=
  ⟨[(["blank.graphql"], .file <| Utf8.encode "\n\t\n"),
    (["notes.graphql"], .file <| Utf8.encode "# nothing yet\n")]⟩

theorem parse_vacant_blank :
    draftTree.readText ((⟨"/", []⟩ : Path).join "blank.graphql") = .ok "\n\t\n" ∧
    IsIgnorable "\n\t\n".toList ∧
    documents.parseFile draftTree ⟨"/", []⟩ "blank.graphql" = .ok none := by
  have hr : draftTree.readText ((⟨"/", []⟩ : Path).join "blank.graphql") = .ok "\n\t\n" := by
    decide +kernel
  have hi : IsIgnorable "\n\t\n".toList := by decide
  exact ⟨hr, hi, (parse_vacant_iff draftTree ⟨"/", []⟩).left _ _ hr hi⟩

-- A file with a comment only is malformed, and with it all that is parsed together with it.
theorem notes_malformed :
    IsIgnorable "# nothing yet\n".toList ∧
    draftTree.readText ((⟨"/", []⟩ : Path).join "notes.graphql") = .ok "# nothing yet\n" ∧
    documents.parseFile draftTree ⟨"/", []⟩ "notes.graphql" =
      .error (.document "notes.graphql" ⟨.unexpected "<EOF>", 14⟩) ∧
    documents.parseAll draftTree ⟨"/", []⟩ ["blank.graphql"] = .ok [] ∧
    documents.parseAll draftTree ⟨"/", []⟩ ["blank.graphql", "notes.graphql"] =
      .error (.document "notes.graphql" ⟨.unexpected "<EOF>", 14⟩) := by
  have hr : draftTree.readText ((⟨"/", []⟩ : Path).join "notes.graphql") =
      .ok "# nothing yet\n" := by
    decide +kernel
  have hi : IsIgnorable "# nothing yet\n".toList := by decide
  have hr' : draftTree.readText ((⟨"/", []⟩ : Path).join "blank.graphql") = .ok "\n\t\n" := by
    decide +kernel
  have hn : documents.parseFile draftTree ⟨"/", []⟩ "notes.graphql" =
      .error (.document "notes.graphql" ⟨.unexpected "<EOF>", 14⟩) := parseFile_ignorable hr hi
  have hb : documents.parseFile draftTree ⟨"/", []⟩ "blank.graphql" = .ok none :=
    parseFile_ignorable hr' (by decide)
  refine ⟨hi, hr, hn, ?_, ?_⟩
  all_goals
    simp only [parseAll, List.filterMapM_cons, hb, hn]
    rfl

end DocumentReader

end GraphqlArtifacts
