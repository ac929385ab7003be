import Mathlib.Data.List.Basic
import GraphqlArtifacts.Language.Tag

namespace GraphqlArtifacts

namespace Tag

variable {s gap blanks template rest before after tail : List Char} {afterWord : Bool}
  {line size : Nat}

-- A tag as it is written.
def written (blanks template : List Char) : List Char :=
  word ++ blanks ++ mark :: (template ++ [mark])

theorem not_isBlank_mark : ¬ isBlank mark := by
  decide

theorem not_isWordChar_mark : isWordChar mark = false := by
  decide +kernel

-- Up to the next mark, if there is one.
theorem takeWhile_unmarked (h : mark ∉ template) :
    (template ++ mark :: rest).takeWhile (· != mark) = template := by
  have hm : ∀ c ∈ template, c != mark := by
    intro c hc
    simpa using ne_of_mem_of_not_mem hc h
  rw [List.takeWhile_append_of_pos hm]
  simp

theorem length_takeWhile_unmarked :
    (s.takeWhile (· != mark)).length < s.length ↔ mark ∈ s := by
  constructor
  case mp =>
    intro h
    by_contra hm
    have hs : s.takeWhile (· != mark) = s := by
      rw [← List.append_nil s, List.takeWhile_append_of_pos]
      · simp
      · exact fun c hc => by simpa using ne_of_mem_of_not_mem hc hm
    simp [hs] at h
  case mpr =>
    intro h
    have ⟨template, rest, hs, ht⟩ := List.eq_append_cons_of_mem h
    simp [hs, takeWhile_unmarked ht]

-- After its word and all blanks that follow, a tag is read from its first mark to the next one.
theorem read?_word (hb : ∀ c ∈ blanks, isBlank c) (ht : ∀ c ∈ tail.head?, ¬ isBlank c) :
    read? (word ++ blanks ++ tail) = some (template, size) ↔
      ∃ rest, tail = mark :: (template ++ mark :: rest) ∧ mark ∉ template ∧
        size = (written blanks template).length := by
  have hw : word.isPrefixOf (word ++ blanks ++ tail) := by
    simp [List.isPrefixOf_iff_prefix]
  have ht : (blanks ++ tail).takeWhile isBlank = blanks := by
    cases tail
    case nil       => simpa using @List.takeWhile_append_of_pos _ isBlank blanks [] hb
    case cons c tl => simp_all [List.takeWhile_append_of_pos hb]
  have hd : (word ++ blanks ++ tail).drop word.length = blanks ++ tail := by
    simp
  have hd' : (word ++ blanks ++ tail).drop (word.length + blanks.length) = tail := by
    rw [← List.length_append, List.drop_left]
  unfold read?
  rw [if_pos hw, hd, ht]
  simp only [hd']
  cases tail
  case nil         => simp
  case cons c tail =>
    simp only [length_takeWhile_unmarked, Option.ite_none_right_eq_some, Option.some.injEq,
      Prod.mk.injEq, List.cons.injEq]
    constructor
    case mp =>
      rintro ⟨⟨rfl, hm⟩, rfl, rfl⟩
      have ⟨template, rest, hs, hn⟩ := List.eq_append_cons_of_mem hm
      refine ⟨rest, ⟨rfl, ?_⟩, ?_, ?_⟩
      all_goals simp [hs, takeWhile_unmarked hn, hn, written]
      omega
    case mpr =>
      rintro ⟨rest, ⟨rfl, rfl⟩, hn, rfl⟩
      simp [takeWhile_unmarked hn, written]
      omega

-- A tag is read where one is written, whatever follows it.
theorem read?_eq_some_iff : read? s = some (template, size) ↔
    ∃ blanks rest, s = written blanks template ++ rest ∧ (∀ c ∈ blanks, isBlank c) ∧
      mark ∉ template ∧ size = (written blanks template).length := by
  constructor
  case mp =>
    intro h
    by_cases hw : word.isPrefixOf s
    case neg => simp [read?, hw] at h
    case pos =>
      obtain ⟨s, rfl⟩ := List.isPrefixOf_iff_prefix.mp hw
      rw [← s.takeWhile_append_dropWhile (p := isBlank), ← List.append_assoc] at h ⊢
      have hb : ∀ c ∈ s.takeWhile isBlank, isBlank c := List.all_eq_true.mp List.all_takeWhile
      have ht : ∀ c ∈ (s.dropWhile isBlank).head?, ¬ isBlank c := by
        intro c hc
        have := s.head?_dropWhile_not isBlank
        simp_all
      have ⟨rest, hs, hm, hz⟩ := (read?_word hb ht).mp h
      exact ⟨_, rest, by simp [hs, written], hb, hm, hz⟩
  case mpr =>
    rintro ⟨blanks, rest, rfl, hb, hm, rfl⟩
    have h : read? (word ++ blanks ++ mark :: (template ++ mark :: rest)) = some (template, _) :=
      (read?_word hb <| by simp [not_isBlank_mark]).mpr ⟨rest, rfl, hm, rfl⟩
    simpa [written] using h

-- Whether the text after another one starts within a word.
def endsInWord (afterWord : Bool) (s : List Char) : Bool :=
  (s.getLast?.map isWordChar).getD afterWord

theorem endsInWord_cons {c : Char} :
    endsInWord afterWord (c :: s) = endsInWord (isWordChar c) s := by
  cases s <;> simp [endsInWord, List.getLast?_cons]

theorem endsInWord_concat {c : Char} : endsInWord afterWord (s ++ [c]) = isWordChar c := by
  simp [endsInWord]

theorem line_cons {c : Char} : (if c = '\n' then line + 1 else line) + s.count '\n' =
    line + (c :: s).count '\n' := by
  by_cases hc : c = '\n' <;> simp [hc]
  omega

-- What belongs to a tag that was found is passed over.
theorem findFrom_covered : findFrom s.length afterWord line (s ++ rest) =
    findFrom 0 (endsInWord afterWord s) (line + s.count '\n') rest := by
  induction s generalizing afterWord line
  case nil         => rfl
  case cons c s hi =>
    rw [endsInWord_cons, ← line_cons, ← hi]
    rfl

-- So is what no tag starts in.
theorem findFrom_bare (h : ∀ tail, tail <:+ s → tail ≠ [] → read? (tail ++ rest) = none) :
    findFrom 0 afterWord line (s ++ rest) =
      findFrom 0 (endsInWord afterWord s) (line + s.count '\n') rest := by
  induction s generalizing afterWord line
  case nil         => rfl
  case cons c s hi =>
    have hr : read? (c :: (s ++ rest)) = none := h _ List.suffix_rfl (by simp)
    rw [endsInWord_cons, ← line_cons,
      ← hi fun tail hs => h tail <| hs.trans <| List.suffix_cons ..]
    simp only [List.cons_append, findFrom, hr, ite_self]

-- A tag is found where one is written, if its word does not continue another one.
theorem findFrom_written (hb : ∀ c ∈ blanks, isBlank c) (ht : mark ∉ template) :
    findFrom 0 false line (written blanks template ++ rest) = ⟨line, String.ofList template⟩ ::
      findFrom 0 false (line + (written blanks template).count '\n') rest := by
  have hr : read? (written blanks template ++ rest) = some (template, _) :=
    read?_eq_some_iff.mpr ⟨blanks, rest, rfl, hb, ht, rfl⟩
  have he : endsInWord false (written blanks template) = false := by
    rw [written, ← List.cons_append, ← List.append_assoc, endsInWord_concat]
    exact not_isWordChar_mark
  have ⟨c, tail, hc⟩ : ∃ c tail, written blanks template = c :: tail := ⟨_, _, rfl⟩
  have hf : findFrom tail.length (isWordChar c) (if c = '\n' then line + 1 else line) _ = _ :=
    @findFrom_covered tail rest _ _
  rw [hc, endsInWord_cons] at he
  rw [he, line_cons] at hf
  rw [hc] at hr ⊢
  rw [List.cons_append] at hr ⊢
  simp [findFrom, hr, hf]

-- No tag starts before the word of the first one, as there is no mark.
theorem read?_before (h : mark ∉ s) (hs : s ≠ []) : read? (s ++ word ++ rest) = none := by
  rw [Option.eq_none_iff_forall_ne_some]
  intro ⟨template, size⟩ hr
  obtain ⟨blanks, tail, he, hb, _⟩ := read?_eq_some_iff.mp hr
  have he : (s ++ word) ++ rest = (word ++ blanks) ++ mark :: (template ++ mark :: tail) := by
    simpa [written] using he
  -- All up to the first mark is the word and blanks, and the word does not stand among blanks.
  have ⟨more, hw⟩ : ∃ more, word ++ blanks = s ++ word ++ more := by
    obtain ⟨more, he, _⟩ | ⟨more, he, hm⟩ := List.append_eq_append_iff.mp he
    case inl => exact ⟨more, he⟩
    case inr =>
      cases more
      case nil      => exact ⟨[], by simpa using he.symm⟩
      case cons c more =>
        have hm : mark ∈ s ++ word := by simp [he, ← (List.cons.inj hm).left]
        cases List.mem_append.mp hm
        case inl hm => exact absurd hm h
        case inr hm => exact absurd hm <| by decide
  have hl : word = word.dropLast ++ ['l'] := by decide
  have hz : word.length ≤ (s ++ word.dropLast).length := by
    have := List.length_pos_iff.mpr hs
    rw [List.length_append, List.length_dropLast]
    omega
  have hd : blanks = (s ++ word.dropLast).drop word.length ++ 'l' :: more := by
    rw [← List.drop_append_of_le_length hz, ← @List.drop_left _ word blanks, hw]
    congr 1
    rw [hl]
    simp
  exact absurd (hb 'l' <| by simp [hd]) (by decide)

theorem read?_unmarked (h : mark ∉ s) : read? s = none := by
  rw [Option.eq_none_iff_forall_ne_some]
  rintro ⟨template, size⟩ hr
  obtain ⟨_, _, rfl, _⟩ := read?_eq_some_iff.mp hr
  simp [written] at h

-- A tag in a source, and the text before it. That text has no mark, and does not end in a word that
-- the one of the tag would continue.
structure Piece where
  gap : List Char
  blanks : List Char
  template : List Char
  gap_unmarked : mark ∉ gap
  gap_ends : ∀ c ∈ gap.getLast?, ¬ isWordChar c
  blanks_blank : ∀ c ∈ blanks, isBlank c
  template_unmarked : mark ∉ template

namespace Piece

def text (p : Piece) : List Char :=
  p.gap ++ written p.blanks p.template

-- The tags of some pieces after a text. Each is on the line of its word.
def tagsAfter (before : List Char) : List Piece → List Tag
  | []         => []
  | p :: later =>
    ⟨(before ++ p.gap).count '\n' + 1, String.ofList p.template⟩ ::
      tagsAfter (before ++ p.text) later

theorem findFrom_text (p : Piece) : findFrom 0 false line (p.text ++ rest) =
    ⟨line + p.gap.count '\n', String.ofList p.template⟩ ::
      findFrom 0 false (line + p.text.count '\n') rest := by
  have hg : ∀ tail, tail <:+ p.gap → tail ≠ [] →
      read? (tail ++ (written p.blanks p.template ++ rest)) = none := by
    intro tail hs hn
    have hm : mark ∉ tail := fun h => p.gap_unmarked <| hs.subset h
    simpa [written] using read?_before hm hn
  have he : endsInWord false p.gap = false := by
    cases hl : p.gap.getLast?
    case none   => simp [endsInWord, hl]
    case some c => simpa [endsInWord, hl] using p.gap_ends c hl
  rw [text, List.append_assoc, findFrom_bare hg, he,
    findFrom_written p.blanks_blank p.template_unmarked, List.count_append, Nat.add_assoc]

end Piece

theorem findFrom_pieces {pieces : List Piece} (h : mark ∉ rest) :
    findFrom 0 false (before.count '\n' + 1) (pieces.flatMap Piece.text ++ rest) =
      Piece.tagsAfter before pieces := by
  induction pieces generalizing before
  case nil =>
    have hr : ∀ tail, tail <:+ rest → tail ≠ [] → read? (tail ++ []) = none := by
      intro tail hs _
      rw [List.append_nil]
      exact read?_unmarked fun hm => h <| hs.subset hm
    simpa [findFrom, Piece.tagsAfter] using findFrom_bare hr
  case cons p pieces hi =>
    rw [List.flatMap_cons, List.append_assoc, p.findFrom_text, Piece.tagsAfter, ← hi]
    simp [List.count_append, Nat.add_right_comm]

-- The tags that are found in a source are those that are written in it, with their templates, and
-- with the lines of their words.
theorem findAll_pieces {pieces : List Piece} (h : mark ∉ rest) :
    findAll (String.ofList (pieces.flatMap Piece.text ++ rest)) = Piece.tagsAfter [] pieces := by
  have hf : findFrom 0 false (([] : List Char).count '\n' + 1) _ = _ :=
    @findFrom_pieces _ [] pieces h
  simpa [findAll] using hf

-- The word of the tag stands in the text before it and in the template as well.
def cardPiece : Piece where
  gap := "// graphql \nexport const card = ".toList
  blanks := " \t".toList
  template := "fragment Card on graphql { id }\n".toList
  gap_unmarked := by decide
  gap_ends c hc := by
    cases (show _ = some ' ' by decide +kernel).symm.trans hc
    decide +kernel
  blanks_blank := List.all_eq_true.mp <| by decide +kernel
  template_unmarked := by decide

def queryPiece : Piece where
  gap := []
  blanks := []
  template := "{ id }".toList
  gap_unmarked := by decide
  gap_ends := nofun
  blanks_blank := nofun
  template_unmarked := by decide

theorem findAll_cardPiece :
    mark ∉ "; graphql".toList ∧
    findAll (String.ofList ([cardPiece, queryPiece].flatMap Piece.text ++ "; graphql".toList)) =
      [⟨2, "fragment Card on graphql { id }\n"⟩, ⟨3, "{ id }"⟩] :=
  ⟨by decide, (findAll_pieces <| by decide).trans <| by decide⟩

end Tag

end GraphqlArtifacts
