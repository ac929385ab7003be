import Mathlib.Data.List.TakeDrop
import Mathlib.Data.List.TakeWhile
import GraphqlArtifacts.Flow.Shape

-- Texts whose brackets match and whose lines are indented by the objects that are open. The text is
-- read once, with the brackets that are open at hand.

namespace GraphqlArtifacts.Flow

inductive Bracket
  | object
  | array
  deriving DecidableEq, Repr

-- The brackets that are open after a text, the innermost first, if each one that is closed is the
-- innermost one.
def opened : List Bracket → List Char → Option (List Bracket)
  | brackets, [] => some brackets
  | brackets, '\x7b' :: '|' :: rest => opened (.object :: brackets) rest
  | brackets, '|' :: '\x7d' :: rest =>
    match brackets with
    | .object :: outer => opened outer rest
    | _ => none
  | brackets, '<' :: rest => opened (.array :: brackets) rest
  | brackets, '>' :: rest =>
    match brackets with
    | .array :: outer => opened outer rest
    | _ => none
  | brackets, _ :: rest => opened brackets rest

-- The line that the text starts with closes an object first.
def ClosesFirst (text : List Char) : Prop :=
  ['|', '\x7d'] <+: text.dropWhile (· == ' ')

instance (text : List Char) : Decidable (ClosesFirst text) :=
  inferInstanceAs (Decidable (_ <+: _))

-- The line that the text starts with has two spaces for each open object, but for one that it
-- closes first.
def IsIndented (brackets : List Bracket) (text : List Char) : Prop :=
  (text.takeWhile (· == ' ')).length + (if ClosesFirst text then 2 else 0) =
    2 * brackets.count .object

-- All brackets match, each line is indented by the objects that are open where it starts, and the
-- text can stand in a comment.
structure WellNested (text : List Char) : Prop where
  commented : ¬ ['*', '/'] <:+: text
  matched : opened [] text = some []
  indented : ∀ before rest, text = before ++ rest → (before = [] ∨ before.getLast? = some '\n') →
    ∃ brackets, opened [] before = some brackets ∧ IsIndented brackets rest

-- The same told by what the text starts with, while some brackets are open.
inductive Nests : List Bracket → List Char → Prop
  | done : Nests [] []
  | openObject {brackets rest} (h : Nests (.object :: brackets) rest) :
      Nests brackets ('\x7b' :: '|' :: rest)
  | closeObject {brackets rest} (h : Nests brackets rest) :
      Nests (.object :: brackets) ('|' :: '\x7d' :: rest)
  | openArray {brackets rest} (h : Nests (.array :: brackets) rest) : Nests brackets ('<' :: rest)
  | closeArray {brackets rest} (h : Nests brackets rest) : Nests (.array :: brackets) ('>' :: rest)
  | newline {brackets rest} (hi : IsIndented brackets rest) (h : Nests brackets rest) :
      Nests brackets ('\n' :: rest)
  | other {brackets c rest} (hc : c ∉ ['\n', '<', '>', '*'])
      (ho : ¬ ['\x7b', '|'] <+: c :: rest) (hd : ¬ ['|', '\x7d'] <+: c :: rest)
      (h : Nests brackets rest) : Nests brackets (c :: rest)

variable {brackets : List Bracket} {text rest s s' : List Char} {c : Char} {depth : Nat}

theorem opened_other (hc : c ∉ ['\n', '<', '>', '*']) (ho : ¬ ['\x7b', '|'] <+: c :: rest)
    (hd : ¬ ['|', '\x7d'] <+: c :: rest) : opened brackets (c :: rest) = opened brackets rest := by
  rw [opened]
  · rintro r rfl rfl
    simp at ho
  · rintro r rfl rfl
    simp at hd
  · rintro rfl
    simp at hc
  · rintro rfl
    simp at hc

namespace Nests

theorem opened_eq (h : Nests brackets text) : opened brackets text = some [] := by
  induction h
  case done               => rfl
  case other hc ho hd _ hi => rw [opened_other hc ho hd, hi]
  all_goals simpa [opened] using ‹opened _ _ = some []›

theorem star_not_mem (h : Nests brackets text) : '*' ∉ text := by
  induction h
  case done => simp
  case other hc _ _ _ hi => grind
  all_goals grind

theorem exists_of_cons_eq (hc : c ≠ '\n') {before : List Char}
    (h : c :: text = before ++ '\n' :: rest) :
    ∃ later, before = c :: later ∧ text = later ++ '\n' :: rest := by
  obtain ⟨_, h⟩ | ⟨later, hb, ht⟩ := List.cons_eq_append_iff.mp h
  case inl => exact absurd (List.cons.inj h).left.symm hc
  case inr => exact ⟨later, hb, ht⟩

-- After each line, the brackets that are open are known and the next line is indented by them.
theorem indented (h : Nests brackets text) {before rest : List Char}
    (he : text = before ++ '\n' :: rest) :
    ∃ after, opened brackets (before ++ ['\n']) = some after ∧ IsIndented after rest := by
  induction h generalizing before
  case done => simp at he
  case openObject hi =>
    obtain ⟨_, rfl, ht⟩ := exists_of_cons_eq (by decide) he
    obtain ⟨_, rfl, ht'⟩ := exists_of_cons_eq (by decide) ht
    simpa [opened] using hi ht'
  case closeObject hi =>
    obtain ⟨_, rfl, ht⟩ := exists_of_cons_eq (by decide) he
    obtain ⟨_, rfl, ht'⟩ := exists_of_cons_eq (by decide) ht
    simpa [opened] using hi ht'
  case openArray hi =>
    obtain ⟨_, rfl, ht⟩ := exists_of_cons_eq (by decide) he
    simpa [opened] using hi ht
  case closeArray hi =>
    obtain ⟨_, rfl, ht⟩ := exists_of_cons_eq (by decide) he
    simpa [opened] using hi ht
  case newline brackets _ hn _ hi =>
    obtain ⟨rfl, ht⟩ | ⟨later, rfl, ht⟩ := List.cons_eq_append_iff.mp he
    case inl =>
      cases ht
      exact ⟨brackets, rfl, hn⟩
    case inr => simpa [opened] using hi ht
  case other c text hc ho hd _ hi =>
    obtain ⟨later, rfl, rfl⟩ := exists_of_cons_eq (by grind) he
    have hp : c :: (later ++ ['\n']) <+: c :: (later ++ '\n' :: rest) := ⟨rest, by simp⟩
    rw [List.cons_append, opened_other hc (mt (·.trans hp) ho) (mt (·.trans hp) hd)]
    exact hi rfl

theorem wellNested (h : Nests [] text) (hi : IsIndented [] text) : WellNested text where
  commented hc := h.star_not_mem <| hc.subset <| .head _
  matched := h.opened_eq
  indented before rest he hb := by
    obtain rfl | hb := hb
    case inl => exact ⟨[], rfl, by rwa [he, List.nil_append] at hi⟩
    case inr =>
      obtain ⟨before, rfl⟩ := List.getLast?_eq_some_iff.mp hb
      exact h.indented (by simpa using he)

end Nests

-- Texts without brackets

-- A text on one line that opens and closes nothing, whatever follows it.
def isQuiet : List Char → Bool
  | [] => true
  | c :: rest =>
    c ∉ ['\n', '<', '>', '*'] && (c ∉ ['\x7b', '|'] || rest.head? == some ' ') && isQuiet rest

theorem isQuiet_append (h : isQuiet s) (h' : isQuiet s') : isQuiet (s ++ s') := by
  induction s
  case nil => exact h'
  case cons c s hi =>
    simp only [isQuiet, Bool.and_eq_true] at h
    simp only [List.cons_append, isQuiet, Bool.and_eq_true, hi h.right, and_true]
    refine h.left.imp_right fun hs => ?_
    cases s
    case nil  => simpa using Or.inl hs
    case cons => simpa using hs

theorem isQuiet_of_forall (h : ∀ c ∈ s, c ∉ ['\n', '<', '>', '*', '\x7b', '|']) : isQuiet s := by
  induction s
  case nil => rfl
  case cons c s hi =>
    have hc := h c (.head _)
    simp_all [isQuiet]

theorem isQuiet_intercalate {separator : List Char} (hs : isQuiet separator)
    {texts : List (List Char)} (h : ∀ text ∈ texts, isQuiet text) :
    isQuiet (separator.intercalate texts) := by
  induction texts
  case nil => rfl
  case cons text texts hi =>
    have ht := h text (.head _)
    have hi := hi fun text ht => h text (.tail _ ht)
    cases texts
    case nil => simpa using ht
    case cons =>
      rw [List.intercalate_cons_cons]
      exact isQuiet_append (isQuiet_append ht hs) hi

theorem Nests.quiet (hs : isQuiet s) (h : Nests brackets rest) : Nests brackets (s ++ rest) := by
  induction s
  case nil => exact h
  case cons c s hi =>
    simp only [isQuiet, Bool.and_eq_true] at hs
    have hp {a b : Char} (ha : ['\x7b', '|'].contains a) (hb : b ≠ ' ') :
        ¬ [a, b] <+: c :: (s ++ rest) := by
      intro hp
      simp only [List.cons_prefix_cons] at hp
      obtain ⟨rfl, hp⟩ := hp
      cases s
      case nil => simp_all
      case cons => simp_all
    exact .other (by simpa using hs.left.left) (hp rfl (by decide)) (hp rfl (by decide))
      (hi hs.right)

end GraphqlArtifacts.Flow
