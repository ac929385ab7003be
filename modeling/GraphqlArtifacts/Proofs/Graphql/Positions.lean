import Mathlib.Data.List.Forall2
import GraphqlArtifacts.Proofs.Graphql.Scanning

-- What a parser reads does not depend on where its tokens stand.

namespace GraphqlArtifacts.Graphql

theorem Token.Alike.elim {P : Token → Token → Prop} {t t' : Token} (h : t.Alike t')
    (hp : ∀ kind text start start', P ⟨kind, start, text⟩ ⟨kind, start', text⟩) : P t t' := by
  have ⟨kind, start, text⟩ := t
  have ⟨kind', start', text'⟩ := t'
  have ⟨hk, hx⟩ := h
  cases hk
  cases hx
  exact hp _ _ _ _

namespace Tokens

-- The token that a parser looks at.
def first (s : Tokens) : Token :=
  s.tokens.headD Parser.endToken

-- Tokens without a fault at their end have the end of the text there.
def Ends (s : Tokens) : Prop :=
  s.fault = none → ∃ t ∈ s.tokens.getLast?, t.kind = .endOfFile

theorem Alike.refl (s : Tokens) : s.Alike s where
  tokens := List.forall₂_same.mpr fun _ _ => ⟨rfl, rfl⟩
  fault := rfl

theorem Alike.symm {s s' : Tokens} (h : s.Alike s') : s'.Alike s where
  tokens := h.tokens.flip.imp fun _ _ h => ⟨h.left.symm, h.right.symm⟩
  fault := h.fault.symm

-- The state after a parser has taken some of the tokens, but never the last one. It may be known
-- that there is one that it has taken.
structure Later (taken : Bool) (s t : Tokens) : Prop where
  tokens : t.tokens <:+ s.tokens
  fault : t.fault = s.fault
  left : s.tokens ≠ [] → t.tokens ≠ []
  fewer : taken → s.Ends → t.tokens.length < s.tokens.length

namespace Later

variable {j k : Bool} {s t u : Tokens}

theorem refl (s : Tokens) : Later false s s where
  tokens := List.suffix_rfl
  fault := rfl
  left h := h
  fewer := nofun

theorem ends (h : Later k s t) (hs : s.Ends) : t.Ends := by
  have ⟨_, hp⟩ := h.tokens
  intro hf
  have ⟨t', ht, hk⟩ := hs (h.fault ▸ hf)
  have hl := h.left <| by
    rintro he
    simp [he] at ht
  rw [← hp, List.getLast?_append_of_ne_nil _ hl] at ht
  exact ⟨t', ht, hk⟩

theorem trans (h₁ : Later j s t) (h₂ : Later k t u) : Later (j || k) s u where
  tokens := h₂.tokens.trans h₁.tokens
  fault := h₂.fault.trans h₁.fault
  left h := h₂.left (h₁.left h)
  fewer h hs := by
    have hl₁ := h₁.tokens.length_le
    have hl₂ := h₂.tokens.length_le
    cases Bool.or_eq_true .. |>.mp h
    case inl hj => exact lt_of_le_of_lt hl₂ (h₁.fewer hj hs)
    case inr hk => exact lt_of_lt_of_le (h₂.fewer hk (h₁.ends hs)) hl₁

theorem mono (h : Later j s t) (hk : k → j) : Later k s t where
  tokens := h.tokens
  fault := h.fault
  left := h.left
  fewer hk' := h.fewer (hk hk')

end Later

end Tokens

namespace Parser

open Tokens (Later)

variable {α β γ δ : Type} {m m₁ : Parser α} {m' m₁' : Parser β} {f : α → Parser γ}
  {f' : β → Parser δ} {Q : α → β → Prop} {R : γ → δ → Prop} {s s' t : Tokens} {a : α} {b : β}
  {c : Prop} [Decidable c] {j k : Bool}

theorem bind_ok {a : γ} :
    (m >>= f) s = .ok (a, t) ↔ ∃ b s₁, m s = .ok (b, s₁) ∧ f b s₁ = .ok (a, t) := by
  simp only [Bind.bind, StateT.bind, Except.bind]
  rcases m s with _ | ⟨_, _⟩ <;> simp

-- Where the first parser succeeds, the second does so on tokens that differ in their places only.
-- The results are related, and so are the tokens that are left.
def Follows (taken : Bool) (Q : α → β → Prop) (m : Parser α) (m' : Parser β) : Prop :=
  ∀ s s' a t, s.Alike s' → m s = .ok (a, t) →
    Later taken s t ∧ ∃ b t', m' s' = .ok (b, t') ∧ Q a b ∧ t.Alike t'

-- The results do not tell the places of tokens.
abbrev Agrees (m : Parser α) : Prop :=
  Follows false Eq m m

-- The same for a parser that takes at least one token.
abbrev Takes (m : Parser α) : Prop :=
  Follows true Eq m m

namespace Follows

theorem later (h : Follows k Q m m') (hm : m s = .ok (a, t)) : Later k s t :=
  (h s s a t (.refl s) hm).left

theorem mono (h : Follows j Q m m') (hk : k → j) : Follows k Q m m' := by
  intro s s' a t hs hm
  have ⟨hl, hb⟩ := h s s' a t hs hm
  exact ⟨hl.mono hk, hb⟩

-- A parser takes a token if it leaves fewer of them.
theorem taking (h : Follows false Q m m')
    (hk : k → ∀ s a t, s.Ends → m s = .ok (a, t) → t.tokens.length < s.tokens.length) :
    Follows k Q m m' := by
  intro s s' a t hs hm
  have ⟨hl, hb⟩ := h s s' a t hs hm
  exact ⟨{ hl with fewer := fun hk' he => hk hk' s a t he hm }, hb⟩

theorem pure (h : Q a b) : Follows false Q (Pure.pure a) (Pure.pure b) := by
  intro s s' a t hs hm
  cases hm
  exact ⟨.refl s, b, s', rfl, h, hs⟩

theorem both (hm : Follows j Q m m') (hf : ∀ a b, Q a b → Follows k R (f a) (f' b)) :
    Follows (j || k) R (m >>= f) (m' >>= f') := by
  intro s s' a t hs h
  have ⟨a₁, s₁, h₁, h₂⟩ := bind_ok.mp h
  have ⟨hl₁, b₁, s₁', h₁', hq, hs₁⟩ := hm s s' a₁ s₁ hs h₁
  have ⟨hl₂, b, t', h₂', hr, ht⟩ := hf a₁ b₁ hq s₁ s₁' a t hs₁ h₂
  exact ⟨hl₁.trans hl₂, b, t', bind_ok.mpr ⟨b₁, s₁', h₁', h₂'⟩, hr, ht⟩

theorem bind (hm : Follows j Q m m') (hf : ∀ a b, Q a b → Follows k R (f a) (f' b)) :
    Follows k R (m >>= f) (m' >>= f') :=
  (both hm hf).mono fun h => by simp [h]

-- The first of two parsers takes a token.
theorem first (hm : Follows k Q m m') (hf : ∀ a b, Q a b → Follows false R (f a) (f' b)) :
    Follows k R (m >>= f) (m' >>= f') :=
  (both hm hf).mono fun h => by simp [h]

theorem ite (hm : Follows k Q m m') (hm₁ : Follows k Q m₁ m₁') :
    Follows k Q (if c then m else m₁) (if c then m' else m₁') := by
  split
  case isTrue  => exact hm
  case isFalse => exact hm₁

theorem raise (fault : SyntaxFault) (t : Token) : Follows k Q (raise fault t) m' := by
  intro s s' a t' _ h
  cases h

theorem unexpected (t : Token) : Follows k Q (unexpected t) m' :=
  raise _ t

theorem same {f' : α → Parser δ} (hm : Follows j Eq m m) (hf : ∀ a, Follows k R (f a) (f' a)) :
    Follows k R (m >>= f) (m >>= f') :=
  hm.bind fun a _ h => h ▸ hf a

theorem firstSame {f' : α → Parser δ} (hm : Follows k Eq m m)
    (hf : ∀ a, Follows false R (f a) (f' a)) : Follows k R (m >>= f) (m >>= f') :=
  hm.first fun a _ h => h ▸ hf a

theorem map {m : Parser α} (hm : Follows k Eq m m) (g : α → γ) :
    Follows k Eq (g <$> m) (g <$> m) := by
  rw [← bind_pure_comp]
  exact hm.firstSame fun _ => .pure rfl

variable {m m' : Parser Token} {f : Token → Parser γ} {f' : Token → Parser δ}

-- A parser goes on in the same way after a token at another place.
theorem token (hm : Follows j Token.Alike m m')
    (hf : ∀ kind text start start', Follows k R (f ⟨kind, start, text⟩) (f' ⟨kind, start', text⟩)) :
    Follows k R (m >>= f) (m' >>= f') :=
  hm.bind fun _ _ ht => ht.elim (P := fun t t' => Follows k R (f t) (f' t')) hf

theorem firstToken (hm : Follows k Token.Alike m m')
    (hf : ∀ kind text start start',
      Follows false R (f ⟨kind, start, text⟩) (f' ⟨kind, start', text⟩)) :
    Follows k R (m >>= f) (m' >>= f') :=
  hm.first fun _ _ ht => ht.elim (P := fun t t' => Follows false R (f t) (f' t')) hf

end Follows

theorem current_follows : Follows false Token.Alike current current := by
  intro s s' a t hs h
  cases h
  refine ⟨.refl s, _, s', rfl, ?_, hs⟩
  have ⟨hs, _⟩ := hs
  cases h : s.tokens <;> cases h' : s'.tokens <;> simp only [h, h'] at hs <;> cases hs
  case nil       => exact ⟨rfl, rfl⟩
  case cons ht _ => exact ht

theorem advance_cons (x y : Token) (l : List Token) (fault : Option SyntaxError) :
    advance ⟨x :: y :: l, fault⟩ = .ok ((), ⟨y :: l, fault⟩) := by
  cases fault <;> rfl

-- What follows the last token is not looked at before the fault there.
theorem advance_agrees : Agrees advance := by
  intro s s' a t ⟨ht, hf⟩ h
  rcases s with ⟨_ | ⟨x, _ | ⟨y, l⟩⟩, fault⟩ <;>
    rcases s' with ⟨_ | ⟨x', _ | ⟨y', l'⟩⟩, fault'⟩ <;> simp at ht
  case cons.cons.cons.cons =>
    rw [advance_cons] at h
    cases h
    have hl : Later false ⟨x :: y :: l, fault⟩ ⟨y :: l, fault⟩ := 
      ⟨List.suffix_cons .., rfl, nofun, nofun⟩
    exact ⟨hl, _, _, advance_cons .., rfl, .cons ht.right.left ht.right.right, hf⟩
  all_goals
    rcases fault with _ | e <;> cases h
    rcases fault' with _ | e' <;> cases hf
    exact ⟨.refl _, _, _, rfl, rfl, ⟨by simp [ht], rfl⟩⟩

theorem lookahead_cons (x y : Token) (l : List Token) (fault : Option SyntaxError) :
    lookahead ⟨x :: y :: l, fault⟩ = .ok (y, ⟨x :: y :: l, fault⟩) := by
  cases fault <;> rfl

theorem lookahead_follows : Follows false Token.Alike lookahead lookahead := by
  intro s s' a t hs h
  have ⟨ht, hf⟩ := hs
  rcases s with ⟨_ | ⟨x, _ | ⟨y, l⟩⟩, fault⟩ <;>
    rcases s' with ⟨_ | ⟨x', _ | ⟨y', l'⟩⟩, fault'⟩ <;> simp at ht
  case cons.cons.cons.cons =>
    rw [lookahead_cons] at h
    cases h
    exact ⟨.refl _, _, _, lookahead_cons .., ht.right.left, hs⟩
  all_goals
    rcases fault with _ | e <;> cases h
    rcases fault' with _ | e' <;> cases hf
  · exact ⟨.refl _, _, _, rfl, ⟨rfl, rfl⟩, hs⟩
  · exact ⟨.refl _, _, _, rfl, ht, hs⟩

theorem remaining_agrees : Agrees remaining := by
  intro s s' a t hs h
  cases h
  exact ⟨.refl s, _, s', rfl, hs.tokens.length_eq, hs⟩

theorem peek_agrees (kind : TokenKind) : Agrees (peek kind) :=
  current_follows.token fun _ _ _ _ => .pure rfl

theorem advance_fewer (h : advance s = .ok ((), t)) (hs : s.Ends)
    (hk : s.first.kind ≠ .endOfFile) : t.tokens.length < s.tokens.length := by
  rcases s with ⟨_ | ⟨x, _ | ⟨y, l⟩⟩, fault⟩
  case nil      => exact absurd rfl hk
  case cons.nil =>
    rcases fault with _ | e <;> cases h
    have ⟨_, hx, he⟩ := hs rfl
    cases hx
    exact absurd he hk
  case cons.cons =>
    rw [advance_cons] at h
    cases h
    simp

theorem expect_follows (kind : TokenKind) :
    Follows (kind != .endOfFile) Token.Alike (expect kind) (expect kind) := by
  have h : Follows false Token.Alike (expect kind) (expect kind) :=
    current_follows.token fun _ _ _ _ =>
      .ite (advance_agrees.same fun _ => .pure ⟨rfl, rfl⟩) (.raise _ _)
  refine h.taking fun hk s a t hs hm => ?_
  have ⟨x, s₁, hx, hm⟩ := bind_ok.mp hm
  cases hx
  split at hm
  case isFalse => cases hm
  case isTrue hx =>
    have ⟨_, _, hm, hp⟩ := bind_ok.mp hm
    cases hp
    exact advance_fewer hm hs <| hx.symm ▸ by simpa using hk

theorem skip_agrees (kind : TokenKind) : Agrees (skip kind) :=
  (peek_agrees kind).same fun _ => .ite (advance_agrees.same fun _ => .pure rfl) (.pure rfl)

theorem expectKeyword_takes (word : String) : Takes (expectKeyword word) := by
  have h : Agrees (expectKeyword word) :=
    current_follows.token fun _ _ _ _ => .ite advance_agrees (.raise _ _)
  refine h.taking fun _ s a t hs hm => ?_
  have ⟨x, s₁, hx, hm⟩ := bind_ok.mp hm
  cases hx
  split at hm
  case isFalse => cases hm
  case isTrue hx =>
    simp only [isKeyword, Bool.and_eq_true, beq_iff_eq] at hx
    exact advance_fewer hm hs <| hx.left.symm ▸ nofun

theorem skipKeyword_agrees (word : String) : Agrees (skipKeyword word) :=
  current_follows.token fun _ _ _ _ => .ite (advance_agrees.same fun _ => .pure rfl) (.pure rfl)

theorem name_takes : Takes name :=
  (expect_follows .name).firstToken fun _ _ _ _ => .pure rfl

variable {item : Parser α} {opening closing separator : TokenKind}

theorem itemsUntil_agrees (h : Agrees item) (fuel : Nat) :
    Agrees (itemsUntil closing item fuel) := by
  induction fuel
  case zero => exact .pure rfl
  case succ fuel hi =>
    exact (skip_agrees closing).same fun _ => .ite (.pure rfl) <|
      h.same fun _ => hi.same fun _ => .pure rfl

theorem any_agrees (h : Agrees item) : Agrees (any opening item closing) :=
  (expect_follows _).token fun _ _ _ _ => remaining_agrees.same fun _ => itemsUntil_agrees h _

theorem many_follows (opening : TokenKind) (h : Agrees item) :
    Follows (opening != .endOfFile) Eq (many opening item closing) (many opening item closing) :=
  (expect_follows _).firstToken fun _ _ _ _ => h.same fun _ => remaining_agrees.same fun _ =>
    (itemsUntil_agrees h _).same fun _ => .pure rfl

theorem optionalMany_agrees (h : Agrees item) : Agrees (optionalMany opening item closing) :=
  (peek_agrees _).same fun _ => .ite ((many_follows _ h).mono nofun) (.pure rfl)

theorem itemsAfter_agrees (h : Agrees item) (fuel : Nat) :
    Agrees (itemsAfter separator item fuel) := by
  induction fuel
  case zero => exact .pure rfl
  case succ fuel hi =>
    exact (skip_agrees _).same fun _ => .ite
      (h.same fun _ => hi.same fun _ => .pure rfl) (.pure rfl)

theorem delimited_agrees (h : Agrees item) : Agrees (delimited separator item) :=
  (skip_agrees _).same fun _ => h.same fun _ => remaining_agrees.same fun _ =>
    (itemsAfter_agrees h _).same fun _ => .pure rfl

theorem refuseVariable_agrees : Agrees (refuseVariable : Parser α) :=
  (expect_follows _).token fun _ _ _ _ => current_follows.token fun _ _ _ _ =>
    .ite (.raise _ _) (.unexpected _)

theorem variableName_takes : Takes variableName :=
  (expect_follows _).token fun _ _ _ _ => name_takes

theorem value_agrees (constant : Bool) (fuel : Nat) : Agrees (value constant fuel) := by
  induction fuel
  case zero => exact current_follows.token fun _ _ _ _ => .unexpected _
  case succ fuel hi =>
    have take (v : Value) : Agrees (Bind.bind advance fun _ => Pure.pure v) :=
      advance_agrees.same fun _ => .pure rfl
    refine current_follows.token fun kind _ _ _ => ?_
    cases kind
    case bracketLeft => exact (any_agrees hi).same fun _ => .pure rfl
    case braceLeft =>
      refine (any_agrees ?_).same fun _ => .pure rfl
      exact name_takes.same fun _ => (expect_follows _).token fun _ _ _ _ =>
        hi.same fun _ => .pure rfl
    case dollar => exact .ite refuseVariable_agrees <| variableName_takes.same fun _ => .pure rfl
    case int | float | string | blockString | name => exact take _
    all_goals exact .unexpected _

theorem anyValue_agrees (constant : Bool) : Agrees (anyValue constant) :=
  remaining_agrees.same fun _ => value_agrees _ _

theorem typeRefWithin_agrees (fuel : Nat) : Agrees (typeRefWithin fuel) := by
  induction fuel
  case zero => exact current_follows.token fun _ _ _ _ => .unexpected _
  case succ fuel hi =>
    unfold typeRefWithin
    have bang (type : TypeRef) : Agrees (Bind.bind (skip .bang) fun b =>
        if b then Pure.pure type.nonNull else Pure.pure type) :=
      (skip_agrees _).same fun _ => .ite (.pure rfl) (.pure rfl)
    refine (skip_agrees _).same fun _ => .ite ?_ ?_
    · exact hi.same fun _ => (expect_follows _).token fun _ _ _ _ => bang _
    · exact name_takes.same fun _ => Follows.same (.pure rfl) fun _ => bang _

theorem typeRef_agrees : Agrees typeRef :=
  remaining_agrees.same fun _ => typeRefWithin_agrees _

theorem argument_agrees (constant : Bool) : Agrees (argument constant) :=
  name_takes.same fun _ => (expect_follows _).token fun _ _ _ _ =>
    (anyValue_agrees _).same fun _ => .pure rfl

theorem arguments_agrees (constant : Bool) : Agrees (arguments constant) :=
  optionalMany_agrees <| argument_agrees _

theorem directive_agrees (constant : Bool) : Agrees (directive constant) :=
  (expect_follows _).token fun _ _ _ _ => name_takes.same fun _ =>
    (arguments_agrees _).same fun _ => .pure rfl

theorem directivesUpTo_agrees (constant : Bool) (fuel : Nat) :
    Agrees (directivesUpTo constant fuel) := by
  induction fuel
  case zero => exact .pure rfl
  case succ fuel hi =>
    exact (peek_agrees _).same fun _ => .ite
      ((directive_agrees _).same fun _ => hi.same fun _ => .pure rfl) (.pure rfl)

theorem directives_agrees (constant : Bool) : Agrees (directives constant) :=
  remaining_agrees.same fun _ => directivesUpTo_agrees _ _

theorem operationKind_takes : Takes operationKind := by
  refine (expect_follows _).firstToken fun _ text _ _ => ?_
  simp only
  cases OperationKind.all.find? (·.keyword == text)
  case none => exact .unexpected _
  case some => exact .pure rfl

-- What follows the default value of a variable or argument, which may be left out.
theorem defaultValue_agrees {rest : Option Value → Parser α} (h : ∀ v, Agrees (rest v)) :
    Agrees (skip .equals >>= fun found =>
      if found then anyValue true >>= fun v => Pure.pure (some v) >>= rest
      else Pure.pure none >>= rest) :=
  (skip_agrees _).same fun _ => .ite
    ((anyValue_agrees _).same fun _ => Follows.same (.pure rfl) h) (Follows.same (.pure rfl) h)

theorem variableDefinition_agrees : Agrees variableDefinition :=
  variableName_takes.same fun _ => (expect_follows _).token fun _ _ _ _ =>
    typeRef_agrees.same fun _ => defaultValue_agrees fun _ =>
      (directives_agrees _).same fun _ => .pure rfl

theorem fragmentName_takes : Takes fragmentName :=
  current_follows.token fun _ _ _ _ => .ite (.unexpected _) name_takes

theorem selection_agrees (fuel : Nat) : Agrees (selection fuel) := by
  induction fuel
  case zero => exact current_follows.token fun _ _ _ _ => .unexpected _
  case succ fuel hi =>
    have hm := @many_follows _ _ .braceRight .braceLeft hi
    have selections {rest : List Selection → Parser Selection} (h : ∀ s, Agrees (rest s)) :
        Agrees (peek .braceLeft >>= fun found =>
          if found then many .braceLeft (selection fuel) .braceRight >>= rest
          else Pure.pure [] >>= rest) :=
      (peek_agrees _).same fun _ => .ite (hm.same h) (Follows.same (.pure rfl) h)
    refine (skip_agrees _).same fun _ => .ite ?_ ?_
    case refine_1 =>
      have inline (condition : Option String) : Agrees (directives false >>= fun ds =>
          many .braceLeft (selection fuel) .braceRight >>= fun s =>
            Pure.pure (Selection.inlineFragment condition ds s)) :=
        (directives_agrees _).same fun _ => hm.same fun _ => .pure rfl
      refine (skipKeyword_agrees _).same fun _ => (peek_agrees _).same fun _ => .ite ?_ ?_
      · exact fragmentName_takes.same fun _ => (directives_agrees _).same fun _ => .pure rfl
      · exact .ite ((name_takes.map _).same inline) (Follows.same (.pure rfl) inline)
    case refine_2 =>
      refine name_takes.same fun _ => (skip_agrees _).same fun _ => .ite ?_ ?_
      · refine name_takes.same fun _ => Follows.same (.pure rfl) fun _ => ?_
        exact (arguments_agrees _).same fun _ => (directives_agrees _).same fun _ =>
          selections fun _ => .pure rfl
      · refine Follows.same (.pure rfl) fun _ => ?_
        exact (arguments_agrees _).same fun _ => (directives_agrees _).same fun _ =>
          selections fun _ => .pure rfl

theorem selectionSet_takes : Takes selectionSet :=
  remaining_agrees.same fun _ => many_follows _ (selection_agrees _)

theorem operation_takes : Takes operation := by
  refine (peek_agrees _).same fun _ => .ite ?_ ?_
  case refine_1 => exact selectionSet_takes.firstSame fun _ => .pure rfl
  case refine_2 =>
    have rest (kind : OperationKind) (key : Option String) :
        Agrees (optionalMany .parenLeft variableDefinition .parenRight >>= fun vs =>
          directives false >>= fun ds => selectionSet >>= fun s =>
            Pure.pure (Definition.operation ⟨kind, key, vs, ds, s⟩)) :=
      (optionalMany_agrees variableDefinition_agrees).same fun _ =>
        (directives_agrees _).same fun _ => selectionSet_takes.same fun _ => .pure rfl
    exact operationKind_takes.firstSame fun kind => (peek_agrees _).same fun _ => .ite
      ((name_takes.map _).same fun _ => rest kind _) (Follows.same (.pure rfl) fun _ => rest kind _)

theorem fragment_takes : Takes fragment :=
  (expectKeyword_takes _).firstSame fun _ => fragmentName_takes.same fun _ =>
    (expectKeyword_takes _).same fun _ => name_takes.same fun _ =>
      (directives_agrees _).same fun _ => selectionSet_takes.same fun _ => .pure rfl

theorem description_agrees : Agrees description :=
  current_follows.token fun _ _ _ _ => .ite (advance_agrees.same fun _ => .pure rfl) (.pure rfl)

theorem inputDefinition_agrees : Agrees inputDefinition :=
  description_agrees.same fun _ => name_takes.same fun _ =>
    (expect_follows _).token fun _ _ _ _ => typeRef_agrees.same fun _ =>
      defaultValue_agrees fun _ => (directives_agrees _).same fun _ => .pure rfl

theorem argumentDefinitions_agrees : Agrees argumentDefinitions :=
  optionalMany_agrees inputDefinition_agrees

theorem fieldDefinition_agrees : Agrees fieldDefinition :=
  description_agrees.same fun _ => name_takes.same fun _ =>
    argumentDefinitions_agrees.same fun _ => (expect_follows _).token fun _ _ _ _ =>
      typeRef_agrees.same fun _ => (directives_agrees _).same fun _ => .pure rfl

theorem fieldDefinitions_agrees : Agrees fieldDefinitions :=
  optionalMany_agrees fieldDefinition_agrees

theorem interfaces_agrees : Agrees interfaces :=
  (skipKeyword_agrees _).same fun _ => .ite (delimited_agrees (name_takes.mono nofun)) (.pure rfl)

theorem enumValue_agrees : Agrees enumValue :=
  description_agrees.same fun _ => current_follows.token fun _ _ _ _ => .ite (.raise _ _) <|
    name_takes.same fun _ => (directives_agrees _).same fun _ => .pure rfl

theorem rootOperation_agrees : Agrees rootOperation :=
  operationKind_takes.same fun _ => (expect_follows _).token fun _ _ _ _ =>
    name_takes.same fun _ => .pure rfl

theorem typeAfter_agrees (keyword : String) (text : Option Description) :
    Agrees (typeAfter keyword text) := by
  refine name_takes.same fun _ => .ite (interfaces_agrees.same fun _ => ?_)
    (Follows.same (.pure rfl) fun _ => ?_)
  all_goals
    refine (directives_agrees _).same fun _ => ?_
    split
    · exact Follows.same (.pure rfl) fun _ => .pure rfl
    · exact (fieldDefinitions_agrees.map _).same fun _ => .pure rfl
    · exact (fieldDefinitions_agrees.map _).same fun _ => .pure rfl
    · exact (skip_agrees _).same fun _ => .ite
        (((delimited_agrees (name_takes.mono nofun)).map _).same fun _ => .pure rfl)
        (Follows.same (.pure rfl) fun _ => .pure rfl)
    · exact ((optionalMany_agrees enumValue_agrees).map _).same fun _ => .pure rfl
    · exact ((optionalMany_agrees inputDefinition_agrees).map _).same fun _ => .pure rfl

theorem directiveLocation_agrees : Agrees directiveLocation :=
  current_follows.token fun _ _ _ _ => name_takes.same fun _ => .ite (.pure rfl) (.unexpected _)

theorem directiveDefinition_takes (text : Option Description) : Takes (directiveDefinition text) :=
  (expectKeyword_takes _).firstSame fun _ => (expect_follows _).token fun _ _ _ _ =>
    name_takes.same fun _ => argumentDefinitions_agrees.same fun _ =>
      (skipKeyword_agrees _).same fun _ => (expectKeyword_takes _).same fun _ =>
        (delimited_agrees directiveLocation_agrees).same fun _ => .pure rfl

theorem schemaDefinition_takes (text : Option Description) : Takes (schemaDefinition text) :=
  (expectKeyword_takes _).firstSame fun _ => (directives_agrees _).same fun _ =>
    (many_follows _ rootOperation_agrees).same fun _ => .pure rfl

-- What follows the check that an extension is not empty.
theorem refusedIf_agrees {a : α} :
    Agrees (if c then current >>= fun t => unexpected t >>= fun (_ : Unit) => Pure.pure a
      else Pure.pure a) :=
  .ite (current_follows.token fun _ _ _ _ =>
    Follows.bind (j := false) (Q := Eq) (.unexpected _) fun _ _ _ => .pure rfl) (.pure rfl)

theorem extension_takes : Takes extension := by
  refine lookahead_follows.token fun _ _ _ _ => .ite ?_ <| .ite ?_ (.unexpected _)
  all_goals
    refine (expectKeyword_takes _).firstSame fun _ => (expectKeyword_takes _).same fun _ => ?_
  case refine_1 =>
    exact (directives_agrees _).same fun _ => (optionalMany_agrees rootOperation_agrees).same
      fun _ => refusedIf_agrees
  case refine_2 => exact (typeAfter_agrees _ _).same fun _ => refusedIf_agrees

theorem definition_takes : Takes definition := by
  refine (peek_agrees _).same fun _ => .ite operation_takes ?_
  refine current_follows.token fun _ _ _ _ => .ite (lookahead_follows.token fun _ _ _ _ => ?_)
    (Follows.token (.pure ⟨rfl, rfl⟩) fun _ _ _ _ => ?_)
  all_goals
    have type (keyword : String) : Takes (description >>= fun text =>
        expectKeyword keyword >>= fun _ => typeAfter keyword text >>= fun type =>
          Pure.pure (Definition.type type)) :=
      description_agrees.same fun _ => (expectKeyword_takes _).firstSame fun _ =>
        (typeAfter_agrees _ _).same fun _ => .pure rfl
    refine .ite (.unexpected _) <| .ite (type _) <| .ite ?_ <| .ite ?_ <| .ite (.raise _ _) <|
      .ite operation_takes <| .ite fragment_takes <| .ite extension_takes (.unexpected _)
    · exact description_agrees.same fun _ => schemaDefinition_takes _
    · exact description_agrees.same fun _ => directiveDefinition_takes _

theorem document_takes : Takes document :=
  definition_takes.firstSame fun _ => remaining_agrees.same fun _ =>
    (itemsUntil_agrees (definition_takes.mono nofun) _).same fun _ => .pure rfl

end Parser

end GraphqlArtifacts.Graphql
