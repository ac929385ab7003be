import GraphqlArtifacts.Proofs.Discovery.Scan
import GraphqlArtifacts.Proofs.Files.Path

namespace GraphqlArtifacts

open Search (pathText Bars)

namespace Path

variable {p start : Path} {parts names : List String}

theorem commonLength_append : commonLength names (names ++ parts) = names.length := by
  induction names
  case nil => cases parts <;> rfl
  case cons name names hi => simp [commonLength, hi]

-- The way from a directory to what lies below it goes through no directory above.
theorem relativeTo_below (h : foldParents p.parts = foldParents start.parts ++ parts) :
    p.relativeTo start = ⟨"", parts⟩ := by
  simp [relativeTo, h, commonLength_append]

end Path

namespace Glob

-- A piece that takes the character that it is read from.
def Piece.isSingle : Piece → Bool
  | .set .. | .group .. => false
  | _                   => true

-- A segment that is read without sets and groups.
def Segment.isLiteral : Segment → Bool
  | .anyDepth  => true
  | .pieces ps => ps.all Piece.isSingle

variable {text part : List Char} {parts texts : List (List Char)} {p : Piece} {ps : List Piece}
  {segment : Segment} {c : Char} {fuel : Nat} {leading : Bool} {v : List Char}
  {fits : List Char → List Char → Prop}

theorem piecesLeaves_of_isSingle (h : ps.all Piece.isSingle) : piecesLeaves ps = ps := by
  induction ps
  case nil => rfl
  case cons p ps hi =>
    rw [List.all_cons, Bool.and_eq_true_iff] at h
    have hp : p.leaves = [p] := by
      cases p
      case group => cases h.left
      all_goals rfl
    rw [piecesLeaves, hp, hi h.right, List.singleton_append]

theorem Segment.body?_eq_none (h : segment.isLiteral) :
    ∀ leaf ∈ segment.leaves, leaf.body? = none := by
  cases segment
  case anyDepth => simp [leaves]
  case pieces ps =>
    rw [leaves, piecesLeaves_of_isSingle h]
    intro p hm
    have hp := List.all_eq_true.mp h p hm
    cases p
    case set => cases hp
    all_goals rfl

-- A literal segment takes its own text, whatever follows.
theorem takes_self (hs : '/' ∉ text) (hf : text.length ≤ fuel)
    (h : (readPieces fuel leading text).all Piece.isSingle) :
    ∃ r, piecesExpression? (readPieces fuel leading text) = some r ∧ r.Takes text v := by
  induction text generalizing fuel leading
  case nil =>
    refine ⟨.empty, ?_, by simp⟩
    cases fuel <;> rfl
  case cons c text hi =>
    obtain ⟨fuel, rfl⟩ : ∃ n, fuel = n + 1 := ⟨fuel - 1, by simp at hf; omega⟩
    simp only [List.mem_cons, not_or] at hs
    have ⟨p, after, he, _, hcase⟩ := readPieces_cons fuel leading c text
    rw [he, List.all_cons, Bool.and_eq_true_iff] at h
    obtain ⟨_, _, _, rfl, _⟩ | ⟨_, rfl, _⟩ | ⟨rfl, rfl⟩ := hcase
    case inl => cases h.left
    case inr.inl => cases h.left
    case inr.inr =>
      have ⟨r, hr, htakes⟩ := plainPiece_expression leading c
      have ⟨rs, hrs, htake⟩ := hi hs.right (by simpa using hf) h.right
      refine ⟨.cat r rs, by simp [he, piecesExpression?, hr, hrs], ?_⟩
      have htake₁ : r.Takes [c] (after ++ v) := by
        refine (htakes _ _ <| by simpa using hs.left).mpr ⟨?_, fun _ hc => ?_⟩
        · unfold Spans
          split_ifs <;> simp
        · obtain rfl | rfl := hc <;> simp
      exact Regex.takes_cat_iff.mpr ⟨[c], after, rfl, htake₁, htake⟩

theorem fits_self (hs : '/' ∉ text) (hd : text ≠ ['*', '*'])
    (h : (Segment.ofText text).isLiteral) : Fits text text := by
  have hbody := Segment.body?_eq_none h
  have hsets : sets text = [] := by
    simpa [sets, segments, dropDotSlash_of_not_mem hs, splitSlashes_of_not_mem hs] using hbody
  have hl := @leaves_inside text text (by simp [hsets])
    (by simp [dropDotSlash_of_not_mem hs, splitSlashes_of_not_mem hs])
  obtain ⟨r, hr, _, hf⟩ := segment_expression hs hd hl
  rw [Segment.ofText, if_neg hd] at h
  obtain ⟨r', hr', htakes⟩ := takes_self (v := []) hs (Nat.le_refl _) h
  obtain rfl : r = r' := Option.some_inj.mp <| hr.symm.trans hr'
  exact (hf text).mpr htakes

theorem cuts_self (hn : texts ≠ []) (he : [] ∉ texts)
    (h : ∀ text ∈ texts, text ≠ ['*', '*'] → fits text text) : Cuts fits texts texts := by
  have hvisible : ¬ IsHidden ['*', '*'] := by simp [IsHidden]
  induction texts
  case nil => contradiction
  case cons text texts hi =>
    simp only [List.mem_cons, not_or] at he
    rw [List.forall_mem_cons] at h
    by_cases ht : texts = []
    case pos =>
      by_cases hd : text = ['*', '*']
      case pos => simp [hd, ht, cuts_last, hvisible]
      case neg => simpa [ht, Cuts, hd] using h.left hd
    case neg =>
      have hc := hi ht he.right h.right
      by_cases hd : text = ['*', '*']
      case pos =>
        subst hd
        exact (cuts_anyDepth ht).mpr ⟨[['*', '*']], texts, rfl, by simp [hvisible], hc⟩
      case neg => exact (cuts_pieces hd).mpr ⟨text, texts, rfl, h.left hd, hc⟩

end Glob

variable {t : Tree} {base schema : Path} {place parts includes excludes : List String} {s : Search}
  {content : List UInt8}

namespace Search

theorem dropDotSlash_pathText (hp : AreNames parts) (hn : parts ≠ []) (hd : "." ∉ parts) :
    Glob.dropDotSlash (pathText parts).toList = (pathText parts).toList := by
  unfold Glob.dropDotSlash
  split
  case h_2 => rfl
  case h_1 rest he =>
    have hs := splitSlashes_pathText hp hn
    rw [he, show '.' :: '/' :: rest = ['.'] ++ '/' :: rest from rfl,
      Glob.splitSlashes_append_slash (by decide)] at hs
    have hm : ['.'] ∈ parts.map String.toList := hs ▸ List.mem_cons_self ..
    obtain ⟨name, hname, hdot⟩ := List.mem_map.mp hm
    obtain rfl : name = "." := String.toList_inj.mp hdot
    exact absurd hname hd

section

variable (hp : AreNames parts) (hn : parts ≠ []) (hd : "." ∉ parts)
  (h : ∀ name ∈ parts, (Glob.Segment.ofText name.toList).isLiteral)

include hp hn hd h

theorem sets_pathText : Glob.sets (pathText parts).toList = [] := by
  simp only [Glob.sets, Glob.segments, dropDotSlash_pathText hp hn hd, splitSlashes_pathText hp hn,
    List.map_map, List.filterMap_eq_nil_iff, List.mem_flatMap, List.mem_map]
  rintro leaf ⟨_, ⟨name, hm, rfl⟩, hl⟩
  exact Glob.Segment.body?_eq_none (h name hm) leaf hl

theorem compiles_pathText : Glob.Compiles (pathText parts) :=
  Glob.compiles_of_ordinary <| by simp [sets_pathText hp hn hd h]

-- A literal path is a pattern that matches it.
theorem matches_self : Glob.Matches (pathText parts) (pathText parts) := by
  rw [Glob.matches_ordinary_iff (by simp [sets_pathText hp hn hd h]),
    dropDotSlash_pathText hp hn hd, splitSlashes_pathText hp hn]
  refine Glob.cuts_self (by simpa using hn) ?_ ?_
  · simpa using fun hm => (hp "" hm).left rfl
  · simpa using fun name hm hd => Glob.fits_self (hp name hm).right hd (h name hm)

end

theorem documents_eq_leavingOut
    (hpath : Path.foldParents schema.parts = Path.foldParents base.parts ++ parts)
    (hn : parts ≠ []) : documents base schema includes excludes =
      (⟨["graphql"], includes, excludes⟩ : Search).leavingOut (pathText parts) := by
  simp [documents, leavingOut, Path.relativeTo_below hpath, Path.text, hn, pathText]

theorem accepts_of_selects (h : s.selects parts (.file content) = .ok true) :
    s.filter.accepts (pathText parts) = .ok true := by
  unfold selects at h
  split at h
  case h_1 => exact h
  case h_2 hr => exact absurd h hr

end Search

-- The schema is found as a document exactly if it is one of the files to find, and its path as a
-- pattern stands for an expression that matches neither it nor a directory that it lies in.
-- Without sets and groups in its path it is not found.
theorem schema_found_iff (ht : t.WellFormed) (hn : t.IsNamed)
    (h : (⟨["graphql"], includes, excludes⟩ : Search).IsScannable)
    (hw : t.walk [] base.parts = .ok place) (hd : t.get? place = some .directory)
    (hpath : Path.foldParents schema.parts = Path.foldParents base.parts ++ parts)
    (hne : parts ≠ []) (hp : AreNames parts) (hdot : "." ∉ parts) :
    ((∃ files, findFiles t base (.documents base schema includes excludes) false = .ok files ∧
        pathText parts ∈ files) ↔
      (∃ content, t.get? (place ++ parts) = some (.file content)) ∧
        (⟨["graphql"], includes, excludes⟩ : Search).Finds parts ∧
          Glob.Compiles (pathText parts) ∧ ¬ Bars (pathText parts) parts) ∧
    ((∀ name ∈ parts, (Glob.Segment.ofText name.toList).isLiteral) →
      ∃ files, findFiles t base (.documents base schema includes excludes) false = .ok files ∧
        pathText parts ∉ files) := by
  rw [Search.documents_eq_leavingOut hpath hne]
  have hscan (hc : Glob.Compiles (pathText parts)) :=
    mem_scanned_leavingOut ht hn h hw hd hp hne hc
  refine ⟨⟨?_, ?_⟩, fun hliteral => ?_⟩
  case refine_1 =>
    rintro ⟨files, hf, hm⟩
    have hc : Glob.Compiles (pathText parts) := by
      obtain ⟨place', parts', content, _, he, hs, hpath'⟩ := mem_findFiles hf hm
      have ha := PathFilter.compiles_of_accepts <| Search.accepts_of_selects hs
      exact ha _ <| List.mem_cons_self ..
    have ⟨files', hf', hm'⟩ := hscan hc
    obtain rfl : files = files' := Except.ok.inj <| hf.symm.trans hf'
    have ⟨hg, hfinds, hb⟩ := hm'.mp hm
    exact ⟨hg, hfinds, hc, hb⟩
  case refine_2 =>
    rintro ⟨hg, hfinds, hc, hb⟩
    have ⟨files, hf, hm⟩ := hscan hc
    exact ⟨files, hf, hm.mpr ⟨hg, hfinds, hb⟩⟩
  case refine_3 =>
    have hpos := List.length_pos_iff.mpr hne
    have ⟨files, hf, hm⟩ := hscan <| Search.compiles_pathText hp hne hdot hliteral
    refine ⟨files, hf, fun hmem => (hm.mp hmem).right.right ⟨parts.length, hpos, Nat.le_refl _, ?_⟩⟩
    rw [List.take_length]
    exact .inl <| Search.matches_self hp hne hdot hliteral

def schemaTree (name : String) : Tree :=
  ⟨[(["src"], .directory), (["src", name], .file [])]⟩

theorem schemaSearch_isScannable : (⟨["graphql"], ["**"], []⟩ : Search).IsScannable :=
  Search.isScannable_of_noSets <| by decide

-- A parenthesis after a space opens no group.
theorem schema_found_parenthesis : ∃ files,
    findFiles (schemaTree "schema (1).graphql") ⟨"/", ["src"]⟩
      (.documents ⟨"/", ["src"]⟩ ⟨"/", ["src", "schema (1).graphql"]⟩ ["**"] []) false = .ok files ∧
    "schema (1).graphql" ∉ files := by
  have ht : (schemaTree "schema (1).graphql").WellFormed := .ofEntries (by decide) (by decide)
  have hw : (schemaTree "schema (1).graphql").walk [] ["src"] = .ok ["src"] := by decide +kernel
  have hl : ∀ name ∈ ["schema (1).graphql"], (Glob.Segment.ofText name.toList).isLiteral := by
    decide +kernel
  exact (@schema_found_iff _ ⟨"/", ["src"]⟩ ⟨"/", ["src", "schema (1).graphql"]⟩ _
    ["schema (1).graphql"] _ _ ht (Tree.isNamed_iff.mpr <| by decide) schemaSearch_isScannable hw
    (by decide) (by decide) (by decide) (by decide) (by decide)).right hl

-- A bracket opens a set, which does not take its own text.
theorem schema_found_bracket : (⟨["graphql"], ["**"], []⟩ : Search).IsScannable ∧
    Glob.Compiles "schema[1].graphql" ∧
    findFiles (schemaTree "schema[1].graphql") ⟨"/", ["src"]⟩
      (.documents ⟨"/", ["src"]⟩ ⟨"/", ["src", "schema[1].graphql"]⟩ ["**"] []) false =
        .ok ["schema[1].graphql"] := by
  refine ⟨schemaSearch_isScannable, ?_, by decide +kernel⟩
  unfold Glob.Compiles
  decide +kernel

end GraphqlArtifacts
