import Mathlib.Data.List.TakeDrop
import GraphqlArtifacts.Glob.Basic
import GraphqlArtifacts.Proofs.Glob.Directories

namespace GraphqlArtifacts

-- An expression that takes no slashes.
def Regex.StaysInside (r : Regex) : Prop :=
  ∀ u v, r.Takes u v → '/' ∉ u

namespace Regex.StaysInside

variable {a b r : Regex} {rs : List Regex} {set : CharSet} {c : Char}

theorem empty : StaysInside .empty := by
  simp [StaysInside]

theorem char (h : c ≠ '/') : StaysInside (.char c) := by
  simpa [StaysInside] using h.symm

theorem one (h : ¬ set.contains '/') : StaysInside (.one set) := by
  intro u v hu
  obtain ⟨c, rfl, hc⟩ := takes_one_iff.mp hu
  rw [List.mem_singleton]
  rintro rfl
  exact h hc

theorem cat (ha : a.StaysInside) (hb : b.StaysInside) : StaysInside (.cat a b) := by
  intro u v hu
  obtain ⟨u₁, u₂, rfl, h₁, h₂⟩ := takes_cat_iff.mp hu
  exact List.not_mem_append (ha _ _ h₁) (hb _ _ h₂)

theorem alt (ha : a.StaysInside) (hb : b.StaysInside) : StaysInside (.alt a b) :=
  fun u v hu => (takes_alt_iff.mp hu).elim (ha u v) (hb u v)

theorem altAll (h : ∀ r ∈ rs, r.StaysInside) : StaysInside (.altAll rs) := by
  intro u v hu
  obtain ⟨_, rfl⟩ | ⟨r, hm, hr⟩ := takes_altAll_iff.mp hu
  · simp
  · exact h r hm u v hr

theorem star (ha : a.StaysInside) : StaysInside (.star a) :=
  fun _ _ hu => hu.star_induction (P := fun u => '/' ∉ u) (by simp) fun h _ hi =>
    List.not_mem_append (ha _ _ h) hi

theorem quantified (hr : r.StaysInside) (q : Glob.Quantifier) : (q.apply r).StaysInside := by
  cases q
  case once        => exact hr
  case optional    => exact hr.alt .empty
  case anyNumber   => exact hr.star
  case atLeastOnce => exact hr.cat hr.star

theorem guarded (hr : r.StaysInside) (guarded : Bool) :
    StaysInside (.cat (Glob.guardExpression guarded) r) := by
  refine .cat ?_ hr
  intro u v hu
  cases guarded <;> simp_all [Glob.guardExpression]

end Regex.StaysInside

namespace Glob

open Regex (StaysInside)

mutual

-- The pieces other than groups that a piece is made of.
def Piece.leaves : Piece → List Piece
  | .group _ alternatives => alternativesLeaves alternatives
  | p                     => [p]

def piecesLeaves : List Piece → List Piece
  | []        => []
  | p :: rest => p.leaves ++ piecesLeaves rest

def alternativesLeaves : List (List Piece) → List Piece
  | []         => []
  | ps :: rest => piecesLeaves ps ++ alternativesLeaves rest

end

-- A set that has a character of a segment other than a dot, and none between segments.
def IsOrdinary (body : List Char) : Prop :=
  ∃ set, CharSet.ofBody? body = some set ∧ ¬ set.contains '/' ∧ ∃ c, c ≠ '.' ∧ set.contains c

namespace Piece

def body? : Piece → Option (List Char)
  | .set _ body => some body
  | _           => none

-- A piece that stands for itself within a segment.
def IsInside : Piece → Prop
  | .char c     => c ≠ '/'
  | .set _ body => IsOrdinary body
  | .group ..   => False
  | _           => True

-- A piece other than a group that can be read from a text.
def ComesFrom (s : List Char) : Piece → Prop
  | .char c   => c ∈ s
  | .set _ _  => '[' ∈ s
  | .group .. => False
  | _         => True

end Piece

variable {p leaf : Piece} {ps : List Piece} {s s' inside after part body : List Char} {depth : Nat}
  {level : Int} {opening closing separator c : Char} {n fuel : Nat} {leading : Bool}
  {alternatives : List (List Piece)} {r : Regex} {rs : List Regex}

theorem mem_alternativesLeaves :
    leaf ∈ alternativesLeaves alternatives ↔ ∃ ps ∈ alternatives, leaf ∈ piecesLeaves ps := by
  induction alternatives <;> simp_all [alternativesLeaves]

theorem Piece.ComesFrom.mono (h : p.ComesFrom s) (hs : s ⊆ s') : p.ComesFrom s' := by
  cases p
  case char  => exact hs h
  case set   => exact hs h
  case group => exact h
  all_goals trivial

theorem splitClosing_subset (h : splitClosing opening closing depth s = some (inside, after)) :
    inside ⊆ s ∧ after ⊆ s := by
  induction s generalizing depth inside
  case nil => simp [splitClosing] at h
  case cons c s hi =>
    have hcons {depth : Nat}
        (h : (splitClosing opening closing depth s).map (fun p => (c :: p.1, p.2)) =
          some (inside, after)) : inside ⊆ c :: s ∧ after ⊆ c :: s := by
      obtain ⟨⟨i, r⟩, hr, he⟩ := Option.map_eq_some_iff.mp h
      obtain ⟨rfl, rfl⟩ := Prod.mk.inj he
      obtain ⟨h₁, h₂⟩ := hi hr
      exact ⟨List.cons_subset_cons c h₁, List.subset_cons_of_subset c h₂⟩
    unfold splitClosing at h
    split at h
    case isTrue => exact hcons h
    case isFalse =>
      split at h
      case isFalse => exact hcons h
      case isTrue =>
        cases depth
        case zero =>
          cases h
          exact ⟨List.nil_subset _, List.subset_cons_self ..⟩
        case succ => exact hcons h

theorem splitTopLevel_subset (h : part ∈ splitTopLevel separator level s) : part ⊆ s := by
  induction s generalizing level part
  case nil => simp_all [splitTopLevel]
  case cons c s hi =>
    simp only [splitTopLevel] at h
    split at h
    case isTrue =>
      obtain rfl | h := List.mem_cons.mp h
      · exact List.nil_subset _
      · exact List.subset_cons_of_subset c <| hi h
    case isFalse =>
      split at h
      case h_1 hn => simp_all
      case h_2 first parts hs =>
        obtain rfl | h := List.mem_cons.mp h
        · exact List.cons_subset_cons c <| hi <| hs ▸ List.mem_cons_self ..
        · exact List.subset_cons_of_subset c <| hi <| hs ▸ List.mem_cons_of_mem _ h

theorem splitSet_subset (h : splitSet s = some (body, after)) : after ⊆ s := by
  unfold splitSet at h
  split at h
  case h_1 => cases h
  case h_2 c rest =>
    split at h
    case h_1 => cases h
    case h_2 hs =>
      cases h
      have hr : after ⊆ rest.dropWhile (· != ']') := by
        rw [List.span_eq_takeWhile_dropWhile] at hs
        rw [(Prod.mk.inj hs).right]
        exact List.subset_cons_self ..
      exact List.subset_cons_of_subset c <| List.Subset.trans hr <| List.dropWhile_subset _

-- The piece of a character that opens neither a group nor a set.
def plainPiece (leading : Bool) (c : Char) : Piece :=
  if c = '*' then .anyRun leading else if c = '?' then .anyChar leading else .char c

-- Reading takes a group, a set or one plain character from the start of a text.
theorem readPieces_cons (fuel : Nat) (leading : Bool) (c : Char) (rest : List Char) :
    ∃ p after, readPieces (fuel + 1) leading (c :: rest) = p :: readPieces fuel false after ∧
      after ⊆ rest ∧
      ((∃ q separator inside, p = .group q ((splitTopLevel separator 0 inside).map
          (readPieces fuel leading)) ∧ inside ⊆ rest ∧ ('(' ∈ rest ∨ c = '{')) ∨
        (∃ body, p = .set leading body ∧ c = '[') ∨ p = plainPiece leading c ∧ after = rest) := by
  simp only [readPieces]
  split
  case h_1 hg =>
    split at hg
    case h_2 => cases hg
    case h_1 r _ =>
      have ⟨⟨inside, after⟩, hs, he⟩ := Option.map_eq_some_iff.mp hg
      cases he
      have ⟨hi, ha⟩ := splitClosing_subset hs
      have hr : r ⊆ '(' :: r := List.subset_cons_self ..
      exact ⟨_, _, rfl, List.Subset.trans ha hr,
        .inl ⟨_, _, _, rfl, List.Subset.trans hi hr, .inl <| by simp⟩⟩
  case h_2 =>
    split
    case h_1 hb =>
      have ⟨hc, hs⟩ := Option.ite_none_right_eq_some.mp hb
      have ⟨hi, ha⟩ := splitClosing_subset hs
      exact ⟨_, _, rfl, ha, .inl ⟨_, _, _, rfl, hi, .inr hc⟩⟩
    case h_2 =>
      split
      case h_1 hb =>
        have ⟨hc, hs⟩ := Option.ite_none_right_eq_some.mp hb
        exact ⟨_, _, rfl, splitSet_subset hs, .inr <| .inl ⟨_, rfl, hc⟩⟩
      case h_2 => exact ⟨_, rest, rfl, List.Subset.refl _, .inr <| .inr ⟨rfl, rfl⟩⟩

-- What is read from a text are characters in it, and sets only where there is a bracket.
theorem readPieces_comesFrom (h : leaf ∈ piecesLeaves (readPieces fuel leading s)) :
    leaf.ComesFrom s := by
  induction fuel generalizing leading s
  case zero => simp [readPieces, piecesLeaves] at h
  case succ fuel hi =>
    cases s
    case nil => simp [readPieces, piecesLeaves] at h
    case cons c rest =>
      have ⟨p, after, he, ha, hp⟩ := readPieces_cons fuel leading c rest
      rw [he, piecesLeaves, List.mem_append] at h
      cases h
      case inr h => exact (hi h).mono <| List.subset_cons_of_subset c ha
      case inl h =>
        obtain ⟨q, separator, inside, rfl, hs, _⟩ | ⟨body, rfl, rfl⟩ | ⟨rfl, rfl⟩ := hp
        case inl =>
          rw [Piece.leaves, mem_alternativesLeaves] at h
          have ⟨_, hp, h⟩ := h
          obtain ⟨part, hm, rfl⟩ := List.mem_map.mp hp
          have hsub := List.Subset.trans (splitTopLevel_subset hm) hs
          exact (hi h).mono <| List.subset_cons_of_subset c hsub
        case inr.inl =>
          obtain rfl : leaf = .set leading body := by simpa [Piece.leaves] using h
          simp [Piece.ComesFrom]
        case inr.inr =>
          unfold plainPiece at h
          split at h
          case isTrue => simp_all [Piece.leaves, Piece.ComesFrom]
          case isFalse => split at h <;> simp_all [Piece.leaves, Piece.ComesFrom]

mutual

-- Pieces that stand for themselves within a segment have an expression that does so.
theorem Piece.expression_inside : (p : Piece) → (∀ leaf ∈ p.leaves, leaf.IsInside) →
    ∃ r, p.expression? = some r ∧ r.StaysInside
  | .char c, h => ⟨_, rfl, .char <| h (.char c) <| by simp [Piece.leaves]⟩
  | .anyChar g, _ => ⟨_, rfl, .guarded (.one <| by simp [contains_notSlash]) g⟩
  | .anyRun g, _ => ⟨_, rfl, .guarded (.star <| .one <| by simp [contains_notSlash]) g⟩
  | .set g body, h => by
    obtain ⟨set, hs, hn, _⟩ : IsOrdinary body := h (.set g body) <| by simp [Piece.leaves]
    exact ⟨_, by simp only [Piece.expression?, hs, Option.map_some], .guarded (.one hn) g⟩
  | .group q alternatives, h => by
    have ⟨rs, hr, hi⟩ := expressions_inside alternatives <| by simpa [Piece.leaves] using h
    exact ⟨_, by simp only [Piece.expression?, hr, Option.map_some], .quantified (.altAll hi) q⟩

theorem piecesExpression_inside : (ps : List Piece) → (∀ leaf ∈ piecesLeaves ps, leaf.IsInside) →
    ∃ r, piecesExpression? ps = some r ∧ r.StaysInside
  | [], _ => ⟨_, rfl, .empty⟩
  | p :: rest, h => by
    simp only [piecesLeaves, List.forall_mem_append] at h
    have ⟨r, hr, hi⟩ := p.expression_inside h.left
    have ⟨rs, hrs, his⟩ := piecesExpression_inside rest h.right
    exact ⟨_, by simp [piecesExpression?, hr, hrs], hi.cat his⟩

theorem expressions_inside : (alternatives : List (List Piece)) →
    (∀ leaf ∈ alternativesLeaves alternatives, leaf.IsInside) →
      ∃ rs, expressions? alternatives = some rs ∧ ∀ r ∈ rs, r.StaysInside
  | [], _ => ⟨_, rfl, by simp⟩
  | ps :: rest, h => by
    simp only [alternativesLeaves, List.forall_mem_append] at h
    have ⟨r, hr, hi⟩ := piecesExpression_inside ps h.left
    have ⟨rs, hrs, his⟩ := expressions_inside rest h.right
    exact ⟨_, by simp [expressions?, hr, hrs], List.forall_mem_cons.mpr ⟨hi, his⟩⟩

end

mutual

theorem Piece.isOpen_eq : (p : Piece) → p.isOpen = p.leaves.any Piece.isOpen
  | .group q alternatives => by
    simp [Piece.leaves, Piece.isOpen, anyOpenAlternative_eq alternatives]
  | .char _ | .anyChar _ | .anyRun _ | .set .. => by simp [Piece.leaves]

theorem anyOpen_eq : (ps : List Piece) → anyOpen ps = (piecesLeaves ps).any Piece.isOpen
  | [] => rfl
  | p :: rest => by simp [anyOpen, piecesLeaves, p.isOpen_eq, anyOpen_eq rest]

theorem anyOpenAlternative_eq : (alternatives : List (List Piece)) →
    anyOpenAlternative alternatives = (alternativesLeaves alternatives).any Piece.isOpen
  | [] => rfl
  | ps :: rest => by
    simp [anyOpenAlternative, alternativesLeaves, anyOpen_eq ps, anyOpenAlternative_eq rest]

end

end Glob

end GraphqlArtifacts
