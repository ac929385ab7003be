import GraphqlArtifacts.Proofs.Graphql.Positions

-- What stands before a document, as tokens of a text and as definitions.

namespace GraphqlArtifacts.Graphql

section

variable {s s₁ rest text : List Char} {kind : TokenKind} {length fuel : Nat} {word : String}
  {l : List Token} {e : Option SyntaxError}

-- The first token of a text, up to its place.
theorem scan_token (hs : skipIgnored s false = s₁) (hr : readToken s₁ = .ok (kind, text, rest))
    (ht : String.ofList text = word) (hk : kind ≠ .endOfFile)
    (h : (scan length fuel rest).Alike ⟨l, e⟩) :
    (scan length (fuel + 1) s).Alike ⟨⟨kind, 0, word⟩ :: l, e⟩ := by
  simp only [scan, hs, hr, hk, if_false]
  exact ⟨.cons ⟨rfl, ht⟩ h.tokens, h.fault⟩

theorem scan_newline : scan length fuel ('\n' :: s) = scan length fuel s := by
  cases fuel <;> rfl

theorem scan_ends (length : Nat) (h : s.length < fuel) : (scan length fuel s).Ends := by
  induction fuel generalizing s
  case zero => cases h
  case succ fuel hi =>
    simp only [scan]
    have hs := skipIgnored_length s false
    rcases hr : readToken (skipIgnored s false) with e | ⟨kind, text, rest⟩
    case error =>
      intro hf
      cases hf
    case ok =>
      by_cases hk : kind = .endOfFile
      case pos =>
        simp only [hk, if_true]
        exact fun _ => ⟨_, rfl, rfl⟩
      case neg =>
        have hl := readToken_shorter hr hk
        simp only [hk, if_false]
        intro hf
        obtain ⟨t, ht, he⟩ := @hi rest (by omega) hf
        refine ⟨t, ?_, he⟩
        rw [List.getLast?_cons, ht]
        rfl

end

-- Further tokens before those of a text.
theorem Tokens.Ends.append (l : List Token) {s : Tokens} (h : s.Ends) :
    Ends ⟨l ++ s.tokens, s.fault⟩ := by
  intro hf
  have ⟨t, ht, hk⟩ := h hf
  exact ⟨t, by rw [List.getLast?_append, ht]; rfl, hk⟩

namespace Parser

variable {α β : Type} {item : Parser α} {f g : α → Parser β} {kind closing separator : TokenKind}
  {s s₁ t : Tokens} {n m : Nat} {a : α} {l : List α} {first : Definition} {d : Document}

theorem bind_congr (h : ∀ a t, item s = .ok (a, t) → f a t = g a t) :
    (item >>= f) s = (item >>= g) s := by
  simp only [Bind.bind, StateT.bind]
  cases hi : item s
  case error => rfl
  case ok r  => exact h r.1 r.2 hi

-- As many items as there are tokens are enough if each of them takes a token.
theorem itemsUntil_enough (hi : Takes item) (hs : s.Ends) (hl : s.tokens ≠ [])
    (hn : s.tokens.length ≤ n) (hm : s.tokens.length ≤ m) :
    itemsUntil closing item n s = itemsUntil closing item m s := by
  induction n generalizing m s
  case zero => exact absurd (List.length_eq_zero_iff.mp <| Nat.le_zero.mp hn) hl
  case succ n hn' =>
    cases m
    case zero => exact absurd (List.length_eq_zero_iff.mp <| Nat.le_zero.mp hm) hl
    case succ m =>
      refine bind_congr fun found s₁ hsk => ?_
      have hs₁ := (skip_agrees closing).later hsk
      cases found
      case true  => rfl
      case false =>
        refine bind_congr fun a s₂ hit => ?_
        have hs₂ := hi.later hit
        have hlt := hs₂.fewer rfl (hs₁.ends hs)
        have hle := hs₁.tokens.length_le
        have hl₂ := hs₂.left <| hs₁.left hl
        have he := @hn' s₂ m ((hs₁.trans hs₂).ends hs) hl₂ (by omega) (by omega)
        simp only [Bind.bind, StateT.bind, he]

theorem current_bind (f : Token → Parser α) : (current >>= f) s = f s.first s :=
  rfl

theorem peek_bind (kind : TokenKind) (f : Bool → Parser α) :
    (peek kind >>= f) s = f (s.first.kind == kind) s :=
  rfl

theorem skip_other (h : s.first.kind ≠ kind) : skip kind s = .ok (false, s) := by
  simp only [skip, peek_bind, beq_false_of_ne h]
  rfl

theorem itemsUntil_cons (hk : s.first.kind ≠ closing) (hi : item s = .ok (a, s₁))
    (hl : itemsUntil closing item n s₁ = .ok (l, t)) :
    itemsUntil closing item (n + 1) s = .ok (a :: l, t) :=
  bind_ok.mpr ⟨_, _, skip_other hk, bind_ok.mpr ⟨_, _, hi, bind_ok.mpr ⟨_, _, hl, rfl⟩⟩⟩

-- Items with separators between them end at any other token.
theorem itemsAfter_nil (h : s.first.kind ≠ separator) :
    itemsAfter separator item n s = .ok ([], s) := by
  cases n
  case zero   => rfl
  case succ n => exact bind_ok.mpr ⟨_, _, skip_other h, rfl⟩

-- All other tokens are refused.
theorem definition_starts (h : definition s = .ok (first, t)) :
    s.first.kind ∈ [.braceLeft, .name, .string, .blockString] := by
  by_contra hk
  simp only [List.mem_cons, List.not_mem_nil, or_false, not_or] at hk
  have ⟨hb, hn, hs, hl⟩ := hk
  have he : definition s = unexpected s.first s := by
    simp [definition, peek_bind, current_bind, isString, hb, hn, hs, hl]
  rw [he] at h
  cases h

theorem document_starts (h : document s = .ok (d, t)) :
    s.first.kind ∈ [.braceLeft, .name, .string, .blockString] := by
  have ⟨_, _, hf, _⟩ := bind_ok.mp h
  exact definition_starts hf

-- A document goes on after a definition with another document.
theorem document_cons (hs : s.Ends) (h : definition s = .ok (first, s₁))
    (hd : document s₁ = .ok (d, t)) : document s = .ok (first :: d, t) := by
  have ⟨second, s₂, h₂, hd⟩ := bind_ok.mp hd
  have ⟨n, s₃, hn, hd⟩ := bind_ok.mp hd
  cases hn
  have ⟨rest, s₄, hr, hd⟩ := bind_ok.mp hd
  cases hd
  have hs₁ := definition_takes.later h
  have hs₂ := definition_takes.later h₂
  have hlt := hs₂.fewer rfl (hs₁.ends hs)
  have ⟨n, hn⟩ := Nat.exists_eq_add_of_lt hlt
  have hl : s₂.tokens ≠ [] := hs₂.left <| List.length_pos_iff.mp <| Nat.zero_lt_of_lt hlt
  have hk : s₁.first.kind ≠ .endOfFile := by
    intro he
    simpa [he] using definition_starts h₂
  have he := (hs₁.trans hs₂).ends hs
  rw [itemsUntil_enough definition_takes he hl le_rfl (Nat.le_add_right _ n)] at hr
  have hd := itemsUntil_cons hk h₂ hr
  rw [← hn] at hd
  exact bind_ok.mpr ⟨_, _, h, bind_ok.mpr ⟨_, _, rfl, bind_ok.mpr ⟨_, _, hd, rfl⟩⟩⟩

end Parser

-- A text is read if its tokens are. Without a token there is no definition.
theorem parse_ok {text : String} {d : Document} :
    parse text = .ok d ↔ ∃ t, Parser.document (tokenize text.toList) = .ok (d, t) := by
  unfold parse
  split
  case h_1 e hs =>
    rw [hs]
    constructor
    case mp  => nofun
    case mpr =>
      intro ⟨t, h⟩
      have hk := Parser.document_starts h
      simp [Tokens.first, Parser.endToken] at hk
  case h_2 =>
    rw [map_ok]
    constructor
    case mp =>
      intro ⟨⟨_, t⟩, h, hd⟩
      cases hd
      exact ⟨t, h⟩
    case mpr =>
      intro ⟨t, h⟩
      exact ⟨(d, t), h, rfl⟩

end GraphqlArtifacts.Graphql
