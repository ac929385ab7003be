import Mathlib.Data.List.TakeDrop
import Mathlib.Data.List.TakeWhile
import GraphqlArtifacts.Proofs.Except
import GraphqlArtifacts.Graphql.Parser

namespace GraphqlArtifacts.Graphql

variable {α β : Type} {s rest text : List Char} {n : Nat} {kind : TokenKind}

theorem isNameContinue_of_isNameStart {c : Char} (h : isNameStart c) : isNameContinue c := by
  simp only [isNameStart, isNameContinue, Char.isAlphanum, Bool.or_eq_true] at h ⊢
  exact h.imp_left .inl

-- What a reader leaves of a text is shorter than some length.
def Leaves (n : Nat) (r : Except Located (α × List Char)) : Prop :=
  ∀ a rest, r = .ok (a, rest) → rest.length < n

namespace Leaves

variable {r : Except Located (α × List Char)}

theorem ok {a : α} (h : rest.length < n) : Leaves n (.ok (a, rest)) := by
  intro _ _ he
  cases he
  exact h

theorem error {e : Located} : Leaves n (.error e : Except Located (α × List Char)) :=
  nofun

theorem mono {m : Nat} (h : Leaves n r) (hm : n ≤ m) : Leaves m r :=
  fun a rest he => lt_of_lt_of_le (h a rest he) hm

theorem map {g : α × List Char → β × List Char} (h : Leaves n r) (hg : ∀ x, (g x).2 = x.2) :
    Leaves n (r.map g) := by
  intro b rest he
  rcases r with _ | ⟨a, rest'⟩
  case error => cases he
  case ok =>
    have he : g (a, rest') = (b, rest) := Except.ok.inj he
    have hr : rest = rest' := (congrArg Prod.snd he).symm.trans (hg _)
    exact hr ▸ h a rest' rfl

theorem bind {f : α × List Char → Except Located (β × List Char)} (h : Leaves n r)
    (hf : ∀ a rest, rest.length < n → Leaves n (f (a, rest))) : Leaves n (r >>= f) := by
  rcases r with _ | ⟨a, rest⟩
  case error => exact error
  case ok    => exact hf a rest (h a rest rfl)

end Leaves

theorem readDigits_leaves : Leaves s.length (readDigits s) := by
  unfold readDigits
  have hs := congrArg List.length (@List.takeWhile_append_dropWhile _ Char.isDigit s)
  rw [List.length_append] at hs
  rw [List.span_eq_takeWhile_dropWhile]
  cases hd : s.takeWhile Char.isDigit
  case nil  => exact .error
  case cons =>
    simp only [hd, List.length_cons] at hs
    exact .ok (by omega)

theorem readWhole_leaves : Leaves s.length (readWhole s) := by
  unfold readWhole
  split
  case h_1 =>
    split
    · split
      · exact .error
      · exact .ok (by simp)
    · exact .ok (by simp)
  case h_2 => exact readDigits_leaves

theorem readFraction_leaves : Leaves (s.length + 1) (readFraction s) := by
  unfold readFraction
  split
  case h_1 =>
    refine .mono (.map readDigits_leaves fun _ => rfl) ?_
    simp only [List.length_cons]
    omega
  case h_2 => exact .ok (by simp)

theorem readExponent_leaves : Leaves (s.length + 1) (readExponent s) := by
  unfold readExponent
  split
  case h_1 => exact .ok (by simp)
  case h_2 =>
    split
    case isFalse => exact .ok (by simp)
    case isTrue =>
      split
      all_goals
        refine .mono (.map readDigits_leaves fun _ => rfl) ?_
        simp only [List.length_cons]
        omega

theorem readNumber_shorter (h : readNumber s = .ok (kind, text, rest)) :
    rest.length < s.length := by
  unfold readNumber at h
  split at h
  rename_i sign s₁ hs
  have ⟨⟨whole, s₂⟩, hw, h⟩ := bind_ok.mp h
  have ⟨⟨fraction, s₃⟩, hf, h⟩ := bind_ok.mp h
  have ⟨⟨exponent, s₄⟩, he, h⟩ := bind_ok.mp h
  have h₁ : s₁.length ≤ s.length := by
    split at hs <;> cases hs <;> simp
  have h₂ := readWhole_leaves _ _ hw
  have h₃ := readFraction_leaves _ _ hf
  have h₄ := readExponent_leaves _ _ he
  have hr : rest = s₄ := by
    simp only at h
    split at h
    · split at h <;> cases h
      rfl
    · cases h
      rfl
  subst hr
  omega

theorem fixedEscape_leaves : Leaves s.length (fixedEscape s) := by
  unfold fixedEscape
  split
  case h_2 => exact .error
  case h_1 =>
    split
    · exact .error
    · split
      · refine .ok ?_
        simp only [List.length_cons]
        omega
      · split
        · split
          · split
            · refine .ok ?_
              simp only [List.length_cons]
              omega
            · exact .error
          · exact .error
        · exact .error

theorem bracedEscape_leaves (hs : s ≠ []) : Leaves s.length (bracedEscape s) := by
  have := List.length_pos_iff.mpr hs
  simp only [bracedEscape]
  split
  · split
    · refine .ok ?_
      simp only [List.length_drop]
      omega
    · exact .error
  · exact .error

theorem readEscape_leaves : Leaves s.length (readEscape s) := by
  unfold readEscape
  split
  · exact bracedEscape_leaves (by simp)
  · exact fixedEscape_leaves
  · split
    · refine .ok ?_
      simp only [List.length_cons]
      omega
    · exact .error
  · exact .error

theorem readString_leaves (fuel : Nat) : Leaves s.length (readString fuel s) := by
  induction fuel generalizing s
  case zero => exact .error
  case succ fuel hi =>
    cases s
    case nil => exact .error
    case cons c rest =>
      simp only [readString]
      split
      · exact .ok (by simp)
      · split
        · exact .error
        · split
          · refine readEscape_leaves.bind fun e rest hr => ?_
            refine .mono (.bind hi fun text rest hr' => ?_) (Nat.le_of_lt hr)
            exact .ok hr'
          · refine .mono (hi.map fun _ => rfl) ?_
            simp

theorem readBlock_leaves (line : List Char) : Leaves s.length (readBlock line s) := by
  induction line, s using readBlock.induct
  case case1 => exact .error
  case case2 =>
    refine .ok ?_
    simp only [List.length_cons]
    omega
  case case3 hi =>
    refine .mono hi ?_
    simp only [List.length_cons]
    omega
  case case4 hi =>
    refine .mono (.map hi fun _ => rfl) ?_
    simp only [List.length_cons]
    omega
  case case5 hc hi =>
    rw [readBlock, if_pos hc]
    · exact .mono (.map hi fun _ => rfl) (by simp)
    all_goals assumption
  case case6 hc hi =>
    rw [readBlock, if_neg hc]
    · exact .mono hi (by simp)
    all_goals assumption

theorem skipIgnored_length (s : List Char) (inComment : Bool) :
    (skipIgnored s inComment).length ≤ s.length := by
  induction s generalizing inComment
  case nil => simp [skipIgnored]
  case cons c rest hi =>
    simp only [skipIgnored, List.length_cons]
    split
    · exact Nat.le_succ_of_le <| hi _
    · split
      · exact Nat.le_succ_of_le <| hi _
      · split
        · exact Nat.le_succ_of_le <| hi _
        · simp

-- Each token but the end takes something of the text.
theorem readToken_shorter (h : readToken s = .ok (kind, text, rest)) (hk : kind ≠ .endOfFile) :
    rest.length < s.length := by
  unfold readToken at h
  split at h
  case h_1 =>
    cases h
    exact absurd rfl hk
  case h_2 =>
    have ⟨_, hr, he⟩ := map_ok.mp h
    cases he
    have := readBlock_leaves _ _ _ hr
    simp only [List.length_cons]
    omega
  case h_3 =>
    have ⟨_, hr, he⟩ := map_ok.mp h
    cases he
    have := readString_leaves _ _ _ hr
    simp only [List.length_cons]
    omega
  case h_4 =>
    cases h
    simp only [List.length_cons]
    omega
  case h_5 c rest' _ _ _ =>
    split at h
    case h_1 => cases h; simp
    case h_2 =>
      split at h
      case isTrue => exact readNumber_shorter h
      case isFalse =>
        split at h
        case isTrue hc =>
          have hn := isNameContinue_of_isNameStart hc
          simp only [List.span_eq_takeWhile_dropWhile, List.dropWhile_cons_of_pos hn] at h
          cases h
          exact Nat.lt_succ_of_le <| List.length_dropWhile_le ..
        case isFalse => split at h <;> cases h

-- Tokens that differ in their places only.
def Token.Alike (t t' : Token) : Prop :=
  t.kind = t'.kind ∧ t.text = t'.text

-- Tokens that differ in their places only, also in that of the fault that they end with.
structure Tokens.Alike (s s' : Tokens) : Prop where
  tokens : List.Forall₂ Token.Alike s.tokens s'.tokens
  fault : s.fault.isSome = s'.fault.isSome

-- With enough fuel the tokens of a text do not depend on it, and on what the text is a part of only
-- in their places.
theorem scan_alike (length length' : Nat) {fuel fuel' : Nat} (h : s.length < fuel)
    (h' : s.length < fuel') : (scan length fuel s).Alike (scan length' fuel' s) := by
  induction fuel generalizing fuel' s
  case zero => cases h
  case succ fuel hi =>
    cases fuel'
    case zero => cases h'
    case succ fuel' =>
      simp only [scan]
      have hs := skipIgnored_length s false
      rcases hr : readToken (skipIgnored s false) with e | ⟨kind, text, rest⟩
      case error => exact ⟨.nil, rfl⟩
      case ok =>
        by_cases hk : kind = .endOfFile
        case pos =>
          simp only [hk, if_true]
          exact ⟨.cons ⟨rfl, rfl⟩ .nil, rfl⟩
        case neg =>
          have hl := readToken_shorter hr hk
          have ⟨ht, hf⟩ := @hi rest fuel' (by omega) (by omega)
          simp only [hk, if_false]
          exact ⟨.cons ⟨rfl, rfl⟩ ht, hf⟩

end GraphqlArtifacts.Graphql
