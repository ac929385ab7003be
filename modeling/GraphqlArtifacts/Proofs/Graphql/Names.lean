import Mathlib.Data.List.TakeDrop
import Mathlib.Data.List.TakeWhile
import GraphqlArtifacts.Proofs.Graphql.Positions

namespace GraphqlArtifacts.Graphql

-- The names that the syntax of documents has.
def IsName (name : String) : Prop :=
  ∃ c rest, name.toList = c :: rest ∧ isNameStart c ∧ ∀ c ∈ rest, isNameContinue c

instance (name : String) : Decidable (IsName name) :=
  match h : name.toList with
  | []        => .isFalse (by simp [IsName, h])
  | c :: rest =>
    decidable_of_iff (isNameStart c ∧ rest.all isNameContinue) (by simp [IsName, h])

def Definition.name? : Definition → Option String
  | .operation o => o.name
  | .fragment f  => some f.name
  | _            => none

-- An operation or fragment that has a name has one of those.
def Definition.IsNamed (d : Definition) : Prop :=
  ∀ name ∈ d.name?, IsName name

-- The names that selections give to fields and fragments.
inductive Selection.HasNames : Selection → Prop
  | field {renamed name arguments directives selections} (hr : ∀ name ∈ renamed, IsName name)
      (hn : IsName name) (hs : ∀ s ∈ selections, HasNames s) :
      HasNames (.field renamed name arguments directives selections)
  | spread {name directives} (hn : IsName name) : HasNames (.spread name directives)
  | inlineFragment {condition directives selections} (hs : ∀ s ∈ selections, HasNames s) :
      HasNames (.inlineFragment condition directives selections)

-- The names that a type has inside of it: those of the values of an enum and of input fields.
def TypeBody.HasNames : TypeBody → Prop
  | .enum values  => ∀ v ∈ values, IsName v.name
  | .input fields => ∀ f ∈ fields, IsName f.name
  | _             => True

structure Operation.HasNames (o : Operation) : Prop where
  name : ∀ name ∈ o.name, IsName name
  declared : ∀ v ∈ o.variableDefinitions, IsName v.name
  selections : ∀ s ∈ o.selections, s.HasNames

structure Fragment.HasNames (f : Fragment) : Prop where
  name : IsName f.name
  selections : ∀ s ∈ f.selections, s.HasNames

def Definition.HasNames : Definition → Prop
  | .operation o              => o.HasNames
  | .fragment f               => f.HasNames
  | .type t | .typeExtension t => t.body.HasNames
  | _                         => True

theorem Definition.HasNames.isNamed {d : Definition} (h : d.HasNames) : d.IsNamed := by
  cases d
  case operation => exact h.name
  case fragment  => simpa [Definition.IsNamed, Definition.name?] using h.name
  all_goals simp [Definition.IsNamed, Definition.name?]

def Token.IsNamed (t : Token) : Prop :=
  t.kind = .name → IsName t.text

-- All names among the tokens that are left are names.
def Tokens.AreNamed (s : Tokens) : Prop :=
  ∀ t ∈ s.tokens, t.IsNamed

namespace Parser

variable {α β γ : Type} {m : Parser α} {m' : Parser γ} {f : α → Parser β} {P : α → Prop} {R : β → Prop} {a : α}
  {c : Prop} [Decidable c] {k : Bool}

-- What can be said of the results of a parser, as long as all names are names.
def Yields (m : Parser α) (P : α → Prop) : Prop :=
  ∀ s a s', s.AreNamed → m s = .ok (a, s') → s'.AreNamed ∧ P a

abbrev Keeps (m : Parser α) : Prop :=
  Yields m fun _ => True

-- The tokens that are left were there before.
theorem Follows.keeps {Q : α → γ → Prop} (h : Follows k Q m m') : Keeps m := by
  intro s a s' hs hm
  exact ⟨fun t ht => hs t <| (h.later hm).tokens.subset ht, trivial⟩

namespace Yields

theorem pure (h : P a) : Yields (Pure.pure a) P := by
  intro s b s' hs hm
  cases hm
  exact ⟨hs, h⟩

theorem bind (hm : Yields m P) (hf : ∀ a, P a → Yields (f a) R) : Yields (m >>= f) R := by
  intro s b s' hs h
  have ⟨a, s₁, hr, h⟩ := bind_ok.mp h
  have ⟨hs₁, hp⟩ := hm s a s₁ hs hr
  exact hf a hp s₁ b s' hs₁ h

theorem after {Q : α → γ → Prop} (hm : Follows k Q m m')
    (hf : ∀ a, Yields (f a) R) : Yields (m >>= f) R :=
  hm.keeps.bind fun a _ => hf a

theorem map (hm : Yields m P) {g : α → β} (hg : ∀ a, P a → R (g a)) : Yields (g <$> m) R := by
  rw [← bind_pure_comp]
  exact hm.bind fun a ha => .pure (hg a ha)

theorem ite {m' : Parser α} (hm : Yields m P) (hm' : Yields m' P) :
    Yields (if c then m else m') P := by
  split
  case isTrue  => exact hm
  case isFalse => exact hm'

theorem raise (fault : SyntaxFault) (t : Token) : Yields (raise fault t) P := by
  intro s a s' _ h
  cases h

theorem unexpected (t : Token) : Yields (unexpected t) P :=
  raise _ t

end Yields

theorem current_yields : Yields current Token.IsNamed := by
  intro s t s' hs h
  cases h
  refine ⟨hs, ?_⟩
  rcases hl : s.tokens with _ | ⟨t, rest⟩
  case nil =>
    intro hk
    simp [endToken] at hk
  case cons => exact hs t <| by simp [hl]

theorem expect_yields (kind : TokenKind) :
    Yields (expect kind) fun t => t.kind = kind ∧ t.IsNamed := by
  refine current_yields.bind fun t ht => ?_
  split
  case isTrue hk => exact .after advance_agrees fun _ => .pure ⟨hk, ht⟩
  case isFalse   => exact .raise _ _

theorem name_yields : Yields name IsName :=
  (expect_yields .name).bind fun _ ⟨hk, hn⟩ => .pure <| hn hk

theorem itemsUntil_yields {closing : TokenKind} (h : Yields m P) (fuel : Nat) :
    Yields (itemsUntil closing m fuel) fun l => ∀ a ∈ l, P a := by
  induction fuel
  case zero => exact .pure (by simp)
  case succ fuel hi =>
    refine .after (skip_agrees closing) fun _ => .ite (.pure (by simp)) ?_
    refine h.bind fun a ha => hi.bind fun l hl => .pure ?_
    simpa using ⟨ha, hl⟩

theorem many_yields {opening closing : TokenKind} (h : Yields m P) :
    Yields (many opening m closing) fun l => ∀ a ∈ l, P a :=
  .after (expect_follows _) fun _ => h.bind fun _ ha => .after remaining_agrees fun _ =>
    (itemsUntil_yields h _).bind fun _ hl => .pure <| by simpa using ⟨ha, hl⟩

theorem optionalMany_yields {opening closing : TokenKind} (h : Yields m P) :
    Yields (optionalMany opening m closing) fun l => ∀ a ∈ l, P a :=
  .after (peek_agrees _) fun _ => .ite (many_yields h) (.pure (by simp))

theorem fragmentName_yields : Yields fragmentName IsName :=
  .after current_follows fun _ => .ite (.unexpected _) name_yields

-- A default value, which may be left out, has no names of its own that matter.
theorem defaultValue_yields {rest : Option Value → Parser α} (h : ∀ v, Yields (rest v) P) :
    Yields (skip .equals >>= fun found =>
      if found then anyValue true >>= fun v => Pure.pure (some v) >>= rest
      else Pure.pure none >>= rest) P :=
  .after (skip_agrees _) fun _ => .ite
    (.after (anyValue_agrees _) fun _ => .after (Follows.pure rfl) h) (.after (Follows.pure rfl) h)

theorem variableName_yields : Yields variableName IsName :=
  .after (expect_follows _) fun _ => name_yields

theorem variableDefinition_yields : Yields variableDefinition fun v => IsName v.name :=
  variableName_yields.bind fun _ hn => .after (expect_follows _) fun _ =>
    .after typeRef_agrees fun _ => defaultValue_yields fun _ =>
      .after (directives_agrees _) fun _ => .pure hn

theorem selection_yields (fuel : Nat) : Yields (selection fuel) Selection.HasNames := by
  induction fuel
  case zero => exact .after current_follows fun _ => .unexpected _
  case succ fuel hi =>
    have hm := @many_yields _ _ _ .braceLeft .braceRight hi
    -- The selections of a field, which may have none.
    have selections {rest : List Selection → Parser Selection}
        (h : ∀ inner, (∀ s ∈ inner, s.HasNames) → Yields (rest inner) Selection.HasNames) :
        Yields (peek .braceLeft >>= fun found =>
          if found then many .braceLeft (selection fuel) .braceRight >>= rest
          else Pure.pure [] >>= rest) Selection.HasNames :=
      .after (peek_agrees _) fun _ => .ite (hm.bind h)
        (Yields.bind (P := fun inner => ∀ s ∈ inner, s.HasNames) (.pure (by simp)) h)
    refine .after (skip_agrees _) fun _ => .ite ?_ ?_
    case refine_1 =>
      have inline (condition : Option String) : Yields (directives false >>= fun ds =>
          many .braceLeft (selection fuel) .braceRight >>= fun s =>
            Pure.pure (Selection.inlineFragment condition ds s)) Selection.HasNames :=
        .after (directives_agrees _) fun _ => hm.bind fun _ hs => .pure (.inlineFragment hs)
      refine .after (skipKeyword_agrees _) fun _ => .after (peek_agrees _) fun _ => .ite ?_ ?_
      · exact fragmentName_yields.bind fun _ hn => .after (directives_agrees _) fun _ =>
          .pure (.spread hn)
      · exact .ite (.after (name_takes.map _) inline) (.after (Follows.pure rfl) inline)
    case refine_2 =>
      -- Without an alias, the first name is that of the field.
      have field (renamed : Option String) (key : String) (hr : ∀ name ∈ renamed, IsName name)
          (hk : IsName key) : Yields (arguments false >>= fun arguments =>
            directives false >>= fun ds => peek .braceLeft >>= fun found =>
              if found then many .braceLeft (selection fuel) .braceRight >>= fun s =>
                Pure.pure (Selection.field renamed key arguments ds s)
              else Pure.pure [] >>= fun s =>
                Pure.pure (Selection.field renamed key arguments ds s)) Selection.HasNames :=
        .after (arguments_agrees _) fun _ => .after (directives_agrees _) fun _ =>
          selections fun _ hs => .pure (.field hr hk hs)
      refine name_yields.bind fun first hf => .after (skip_agrees _) fun _ => .ite ?_ ?_
      · exact name_yields.bind fun key hk => field (some first) key (by simpa) hk
      · exact field none first nofun hf

theorem selectionSet_yields : Yields selectionSet fun l => ∀ s ∈ l, s.HasNames :=
  .after remaining_agrees fun _ => many_yields (selection_yields _)

theorem operation_yields : Yields operation Definition.HasNames := by
  refine .after (peek_agrees _) fun _ => .ite ?_ ?_
  case refine_1 =>
    exact selectionSet_yields.bind fun _ hs => .pure ⟨nofun, by simp, hs⟩
  case refine_2 =>
    have rest (kind : OperationKind) {key : Option String} (hk : ∀ name ∈ key, IsName name) :
        Yields (optionalMany .parenLeft variableDefinition .parenRight >>= fun vs =>
          directives false >>= fun ds => selectionSet >>= fun s =>
            Pure.pure (Definition.operation ⟨kind, key, vs, ds, s⟩)) Definition.HasNames :=
      (optionalMany_yields variableDefinition_yields).bind fun _ hv =>
        .after (directives_agrees _) fun _ => selectionSet_yields.bind fun _ hs =>
          .pure ⟨hk, hv, hs⟩
    refine .after operationKind_takes fun kind => .after (peek_agrees _) fun _ => .ite ?_ ?_
    · exact (name_yields.map (R := fun key => ∀ name ∈ key, IsName name) fun _ hn => by simpa).bind
        fun _ hk => rest kind hk
    · exact Yields.bind (.pure (a := none) (P := fun key => ∀ name ∈ key, IsName name) nofun)
        fun _ hk => rest kind hk

theorem fragment_yields : Yields fragment Definition.HasNames :=
  .after (expectKeyword_takes _) fun _ => fragmentName_yields.bind fun _ hk =>
    .after (expectKeyword_takes _) fun _ => .after name_takes fun _ =>
      .after (directives_agrees _) fun _ => selectionSet_yields.bind fun _ hs => .pure ⟨hk, hs⟩

theorem inputDefinition_yields : Yields inputDefinition fun f => IsName f.name :=
  .after description_agrees fun _ => name_yields.bind fun _ hn => .after (expect_follows _) fun _ =>
    .after typeRef_agrees fun _ => defaultValue_yields fun _ =>
      .after (directives_agrees _) fun _ => .pure hn

theorem enumValue_yields : Yields enumValue fun v => IsName v.name :=
  .after description_agrees fun _ => .after current_follows fun _ => .ite (.raise _ _) <|
    name_yields.bind fun _ hn => .after (directives_agrees _) fun _ => .pure hn

theorem typeAfter_yields (keyword : String) (text : Option Description) :
    Yields (typeAfter keyword text) fun t => t.body.HasNames := by
  have fields {g : List FieldDefinition → TypeBody} (hg : ∀ fields, (g fields).HasNames) :
      Yields (g <$> fieldDefinitions) TypeBody.HasNames :=
    fieldDefinitions_agrees.keeps.map fun fields _ => hg fields
  refine .after name_takes fun _ => .ite (.after interfaces_agrees fun _ => ?_)
    (.after (Follows.pure rfl) fun _ => ?_)
  all_goals
    refine .after (directives_agrees _) fun _ => ?_
    have rest {m : Parser TypeBody} {g : TypeBody → TypeDefinition}
        (hm : Yields m TypeBody.HasNames) (hg : ∀ body, (g body).body = body) :
        Yields (m >>= fun body => Pure.pure (g body)) fun t => t.body.HasNames :=
      hm.bind fun body hb => .pure <| (hg body).symm ▸ hb
    split
    · exact rest (.pure trivial) fun _ => rfl
    · exact rest (fields fun _ => trivial) fun _ => rfl
    · exact rest (fields fun _ => trivial) fun _ => rfl
    · refine .after (skip_agrees _) fun _ => .ite (rest ?_ fun _ => rfl) (rest ?_ fun _ => rfl)
      · exact (delimited_agrees (name_takes.mono nofun)).keeps.map fun _ _ => trivial
      · exact .pure trivial
    · exact rest ((optionalMany_yields enumValue_yields).map fun _ hv => hv) fun _ => rfl
    · exact rest ((optionalMany_yields inputDefinition_yields).map fun _ hf => hf) fun _ => rfl

theorem directiveDefinition_yields (text : Option Description) :
    Yields (directiveDefinition text) Definition.HasNames :=
  .after (expectKeyword_takes _) fun _ => .after (expect_follows _) fun _ =>
    .after name_takes fun _ => .after argumentDefinitions_agrees fun _ =>
      .after (skipKeyword_agrees _) fun _ => .after (expectKeyword_takes _) fun _ =>
        .after (delimited_agrees directiveLocation_agrees) fun _ => .pure trivial

theorem schemaDefinition_yields (text : Option Description) :
    Yields (schemaDefinition text) Definition.HasNames :=
  .after (expectKeyword_takes _) fun _ => .after (directives_agrees _) fun _ =>
    .after (many_follows _ rootOperation_agrees) fun _ => .pure trivial

theorem refusedIf_yields (h : P a) :
    Yields (if c then current >>= fun t => unexpected t >>= fun (_ : Unit) => Pure.pure a
      else Pure.pure a) P :=
  .ite (.after current_follows fun _ => Yields.bind (P := fun _ => False) (.unexpected _) nofun)
    (.pure h)

theorem extension_yields : Yields extension Definition.HasNames := by
  refine .after lookahead_follows fun _ => .ite ?_ <| .ite ?_ (.unexpected _)
  all_goals refine .after (expectKeyword_takes _) fun _ => .after (expectKeyword_takes _) fun _ => ?_
  case refine_1 =>
    exact .after (directives_agrees _) fun _ =>
      .after (optionalMany_agrees rootOperation_agrees) fun _ => refusedIf_yields trivial
  case refine_2 => exact (typeAfter_yields _ _).bind fun _ ht => refusedIf_yields ht

theorem definition_yields : Yields definition Definition.HasNames := by
  refine .after (peek_agrees _) fun _ => .ite operation_yields ?_
  refine .after current_follows fun first => .ite (.after lookahead_follows fun t => ?_)
    (.after (Follows.pure rfl) fun t => ?_)
  all_goals
    have type : Yields (description >>= fun text => expectKeyword t.text >>= fun _ =>
        typeAfter t.text text >>= fun type => Pure.pure (Definition.type type))
          Definition.HasNames :=
      .after description_agrees fun _ => .after (expectKeyword_takes _) fun _ =>
        (typeAfter_yields _ _).bind fun _ ht => .pure ht
    refine .ite (.unexpected _) <| .ite type <| .ite ?_ <| .ite ?_ <| .ite (.raise _ _) <|
      .ite operation_yields <| .ite fragment_yields <| .ite extension_yields (.unexpected _)
    · exact .after description_agrees fun _ => schemaDefinition_yields _
    · exact .after description_agrees fun _ => directiveDefinition_yields _

theorem document_yields : Yields document fun d => ∀ definition ∈ d, definition.HasNames := by
  refine definition_yields.bind fun first hf => .after remaining_agrees fun n => ?_
  refine (itemsUntil_yields definition_yields n).bind fun rest hr => .pure ?_
  simpa using ⟨hf, hr⟩

end Parser

variable {s rest text : List Char} {c : Char} {kind : TokenKind} {name : String}

theorem not_isNameContinue_slash : ¬ isNameContinue '/' := by
  decide

theorem IsName.slash_not_mem (h : IsName name) : '/' ∉ name.toList := by
  obtain ⟨c, rest, hn, hc, hr⟩ := h
  rw [hn, List.mem_cons, not_or]
  constructor
  · rintro rfl
    exact not_isNameContinue_slash <| isNameContinue_of_isNameStart hc
  · exact fun hm => not_isNameContinue_slash <| hr _ hm

theorem IsName.append {suffix : String} (h : IsName name)
    (hs : suffix.toList.all isNameContinue) : IsName (name ++ suffix) := by
  obtain ⟨c, rest, hn, hc, hr⟩ := h
  refine ⟨c, rest ++ suffix.toList, by simp [hn], hc, ?_⟩
  exact List.forall_mem_append.mpr ⟨hr, List.all_eq_true.mp hs⟩

theorem punctuator?_ne_name (h : TokenKind.punctuator? c = some kind) : kind ≠ .name := by
  rintro rfl
  unfold TokenKind.punctuator? at h
  split at h <;> simp at h

theorem readNumber_ne_name (h : readNumber s = .ok (kind, text, rest)) : kind ≠ .name := by
  unfold readNumber at h
  simp only [bind, Except.bind] at h
  -- The sign, the digits before the point, those after it, and the exponent.
  split at h
  case h_1 => cases h
  case h_2 =>
    split at h
    case h_1 => cases h
    case h_2 =>
      split at h
      case h_1 => cases h
      case h_2 =>
        split at h
        case h_1 =>
          split at h <;> cases h
          split <;> simp
        case h_2 =>
          cases h
          split <;> simp

theorem readToken_name (h : readToken s = .ok (.name, text, rest)) :
    IsName (String.ofList text) := by
  unfold readToken at h
  split at h
  case h_1 => cases h
  case h_2 => simp only [Except.map] at h; split at h <;> cases h
  case h_3 => simp only [Except.map] at h; split at h <;> cases h
  case h_4 => cases h
  case h_5 c rest' _ _ _ =>
    split at h
    case h_1 kind hk =>
      cases h
      exact absurd rfl <| punctuator?_ne_name hk
    case h_2 =>
      split at h
      case isTrue => exact absurd rfl <| readNumber_ne_name h
      case isFalse =>
        split at h
        case isTrue hc =>
          simp only [List.span_eq_takeWhile_dropWhile, Except.ok.injEq, Prod.mk.injEq, true_and] at h
          rw [← h.left, List.takeWhile_cons_of_pos <| isNameContinue_of_isNameStart hc]
          exact ⟨c, _, String.toList_ofList, hc, fun c hm => List.mem_takeWhile_imp hm⟩
        case isFalse => split at h <;> cases h

theorem scan_named (length fuel : Nat) (s : List Char) : (scan length fuel s).AreNamed := by
  induction fuel generalizing s
  case zero => simp [scan, Tokens.AreNamed]
  case succ fuel hi =>
    unfold scan
    rcases hr : readToken (skipIgnored s false) with ⟨fault, rest⟩ | ⟨kind, text, rest⟩
    case error => simp [hr, Tokens.AreNamed]
    case ok =>
      have ht (start : Nat) : Token.IsNamed ⟨kind, start, String.ofList text⟩ := by
        rintro rfl
        exact readToken_name hr
      by_cases hk : kind = .endOfFile
      case pos =>
        subst hk
        simpa [hr, Tokens.AreNamed] using ht _
      case neg =>
        have hl := hi rest
        simp only [hr, hk, if_false, Tokens.AreNamed, List.mem_cons, forall_eq_or_imp]
        exact ⟨ht _, hl⟩

-- All names in a document that was parsed are of the syntax of documents.
theorem parse_hasNames {text : String} {document : Document} (h : parse text = .ok document) :
    ∀ definition ∈ document, definition.HasNames := by
  have hn : (tokenize text.toList).AreNamed := scan_named _ _ _
  unfold parse at h
  split at h
  case h_1 => cases h
  case h_2 =>
    rcases hd : Parser.document.run (tokenize text.toList) with _ | ⟨document, s⟩ <;>
      simp only [hd, Except.map] at h <;> cases h
    exact (Parser.document_yields _ _ _ hn hd).right

def Definition.IsParsed (definition : Definition) : Prop :=
  ∃ text document, parse text = .ok document ∧ definition ∈ document

theorem Definition.IsParsed.hasNames {definition : Definition} (h : definition.IsParsed) :
    definition.HasNames :=
  have ⟨_, _, hp, hm⟩ := h
  parse_hasNames hp definition hm

theorem parse_names {text : String} {document : Document} (h : parse text = .ok document) :
    ∀ definition ∈ document, definition.IsNamed :=
  fun definition hd => (parse_hasNames h definition hd).isNamed

end GraphqlArtifacts.Graphql
