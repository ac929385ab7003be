import GraphqlArtifacts.Proofs.Graphql.Prefixes
import GraphqlArtifacts.Proofs.Schema.Building

-- Schemas that are loaded from a text, with the directives for conditional selections before it.

namespace GraphqlArtifacts

namespace Schema

open Graphql (Token)

-- The definition of such a directive, as text and as tokens.
def providedLine (name : String) : String :=
  "directive @" ++ name ++ "(if: Boolean) on FRAGMENT_SPREAD | FIELD\n"

def providedTokens (name : String) : List Token :=
  [⟨.name, 0, "directive"⟩, ⟨.at, 0, ""⟩, ⟨.name, 0, name⟩, ⟨.parenLeft, 0, ""⟩, ⟨.name, 0, "if"⟩,
    ⟨.colon, 0, ""⟩, ⟨.name, 0, "Boolean"⟩, ⟨.parenRight, 0, ""⟩, ⟨.name, 0, "on"⟩,
    ⟨.name, 0, "FRAGMENT_SPREAD"⟩, ⟨.pipe, 0, ""⟩, ⟨.name, 0, "FIELD"⟩]

theorem providedText_eq : providedText = "\n" ++ providedLine "include" ++ providedLine "skip" := by
  rfl

end Schema

namespace Graphql

open Schema (providedLine providedTokens providedDefinition)

variable {name : String} {length fuel : Nat} {rest : List Char} {a : Token} {l : List Token}
  {e : Option SyntaxError} {s t : Tokens} {d : Document}

-- Whatever comes after it, the text of a definition gives the same tokens.
theorem scan_providedLine
    (hs : ∀ rest, skipIgnored (name.toList ++ '(' :: rest) false = name.toList ++ '(' :: rest)
    (hr : ∀ rest, readToken (name.toList ++ '(' :: rest) = .ok (.name, name.toList, '(' :: rest))
    (h : (scan length fuel rest).Alike ⟨l, e⟩) :
    (scan length (fuel + 12) ((providedLine name).toList ++ rest)).Alike
      ⟨providedTokens name ++ l, e⟩ := by
  have h : (scan length fuel ('\n' :: rest)).Alike ⟨l, e⟩ := by
    rw [scan_newline]
    exact h
  simp only [providedLine, providedTokens, String.toList_append, List.append_assoc,
    List.cons_append, List.nil_append]
  refine scan_token rfl rfl rfl (by decide) <| scan_token rfl rfl rfl (by decide) <|
    scan_token (hs _) (hr _) String.ofList_toList (by decide) ?_
  exact scan_token rfl rfl rfl (by decide) <| scan_token rfl rfl rfl (by decide) <|
    scan_token rfl rfl rfl (by decide) <| scan_token rfl rfl rfl (by decide) <|
    scan_token rfl rfl rfl (by decide) <| scan_token rfl rfl rfl (by decide) <|
    scan_token rfl rfl rfl (by decide) <| scan_token rfl rfl rfl (by decide) <|
    scan_token rfl rfl rfl (by decide) h

namespace Parser

theorem argumentDefinitions_provided :
    argumentDefinitions ⟨(providedTokens name).drop 3 ++ a :: l, e⟩ =
      .ok ((providedDefinition name).arguments, ⟨(providedTokens name).drop 8 ++ a :: l, e⟩) := by
  cases e <;> rfl

-- The list of locations ends before any token that is no separator.
theorem locations_provided (h : a.kind ≠ .pipe) :
    delimited .pipe directiveLocation ⟨(providedTokens name).drop 9 ++ a :: l, e⟩ =
      .ok ((providedDefinition name).locations, ⟨a :: l, e⟩) := by
  have hf : directiveLocation ⟨(providedTokens name).drop 9 ++ a :: l, e⟩ =
      .ok ("FRAGMENT_SPREAD", ⟨(providedTokens name).drop 10 ++ a :: l, e⟩) := by
    cases e <;> rfl
  have hs : skip .pipe ⟨(providedTokens name).drop 10 ++ a :: l, e⟩ =
      .ok (true, ⟨(providedTokens name).drop 11 ++ a :: l, e⟩) := by
    cases e <;> rfl
  have hl : directiveLocation ⟨(providedTokens name).drop 11 ++ a :: l, e⟩ =
      .ok ("FIELD", ⟨a :: l, e⟩) := by
    cases e <;> rfl
  have hi {n : Nat} : itemsAfter .pipe directiveLocation n ⟨a :: l, e⟩ = .ok ([], ⟨a :: l, e⟩) :=
    itemsAfter_nil h
  refine bind_ok.mpr ⟨_, _, skip_other nofun, bind_ok.mpr ⟨_, _, hf, ?_⟩⟩
  refine bind_ok.mpr ⟨_, _, rfl, bind_ok.mpr ⟨_, _, ?_, rfl⟩⟩
  exact bind_ok.mpr ⟨_, _, hs, bind_ok.mpr ⟨_, _, hl, bind_ok.mpr ⟨_, _, hi, rfl⟩⟩⟩

theorem definition_provided (h : a.kind ≠ .pipe) :
    definition ⟨providedTokens name ++ a :: l, e⟩ =
      .ok (.directive (providedDefinition name), ⟨a :: l, e⟩) := by
  have hd : definition ⟨providedTokens name ++ a :: l, e⟩ =
      directiveDefinition none ⟨providedTokens name ++ a :: l, e⟩ := by
    cases e <;> rfl
  have hk : expectKeyword "directive" ⟨providedTokens name ++ a :: l, e⟩ =
      .ok ((), ⟨(providedTokens name).drop 1 ++ a :: l, e⟩) := by
    cases e <;> rfl
  have ha : expect .at ⟨(providedTokens name).drop 1 ++ a :: l, e⟩ =
      .ok (⟨.at, 0, ""⟩, ⟨(providedTokens name).drop 2 ++ a :: l, e⟩) := by
    cases e <;> rfl
  have hn : Parser.name ⟨(providedTokens name).drop 2 ++ a :: l, e⟩ =
      .ok (name, ⟨(providedTokens name).drop 3 ++ a :: l, e⟩) := by
    cases e <;> rfl
  have hr : skipKeyword "repeatable" ⟨(providedTokens name).drop 8 ++ a :: l, e⟩ =
      .ok (false, ⟨(providedTokens name).drop 8 ++ a :: l, e⟩) := by
    cases e <;> rfl
  have ho : expectKeyword "on" ⟨(providedTokens name).drop 8 ++ a :: l, e⟩ =
      .ok ((), ⟨(providedTokens name).drop 9 ++ a :: l, e⟩) := by
    cases e <;> rfl
  rw [hd]
  refine bind_ok.mpr ⟨_, _, hk, bind_ok.mpr ⟨_, _, ha, bind_ok.mpr ⟨_, _, hn, ?_⟩⟩⟩
  refine bind_ok.mpr ⟨_, _, argumentDefinitions_provided, bind_ok.mpr ⟨_, _, hr, ?_⟩⟩
  exact bind_ok.mpr ⟨_, _, ho, bind_ok.mpr ⟨_, _, locations_provided h, rfl⟩⟩

-- A document does not start with a separator, so that it is not read as a part of the definition.
theorem document_provided (name : String) (hs : s.Ends) (h : document s = .ok (d, t)) :
    document ⟨providedTokens name ++ s.tokens, s.fault⟩ =
      .ok (.directive (providedDefinition name) :: d, t) := by
  have hk := document_starts h
  rcases s with ⟨_ | ⟨a, l⟩, e⟩
  case nil  => simp [Tokens.first, endToken] at hk
  case cons =>
    have hp : a.kind ≠ .pipe := by
      intro hp
      simp [Tokens.first, hp] at hk
    exact document_cons (hs.append _) (definition_provided hp) h

end Parser

theorem tokenize_provided (text : String) :
    (tokenize (Schema.providedText ++ "\n" ++ text).toList).Alike
      ⟨providedTokens "include" ++ (providedTokens "skip" ++ (tokenize text.toList).tokens),
        (tokenize text.toList).fault⟩ := by
  have hl : (Schema.providedText ++ "\n" ++ text).toList =
      '\n' :: ((providedLine "include").toList ++
        ((providedLine "skip").toList ++ '\n' :: text.toList)) := by
    simp only [Schema.providedText_eq, String.toList_append, List.append_assoc]
    rfl
  have hn : text.toList.length + 24 ≤ (Schema.providedText ++ "\n" ++ text).toList.length := by
    simp [hl, providedLine]
  have ⟨fuel, hf⟩ := Nat.exists_eq_add_of_le hn
  have hf : (Schema.providedText ++ "\n" ++ text).toList.length + 1 =
      text.toList.length + 1 + fuel + 12 + 12 := by
    omega
  unfold tokenize
  rw [hf]
  generalize (Schema.providedText ++ "\n" ++ text).toList.length = length
  rw [hl, scan_newline]
  refine scan_providedLine (fun _ => rfl) (fun _ => rfl) ?_
  refine scan_providedLine (fun _ => rfl) (fun _ => rfl) ?_
  rw [scan_newline]
  exact scan_alike _ _ (by omega) (by omega)

-- No text is read as a part of the definitions before it.
theorem parse_provided {text : String} (h : parse text = .ok d) :
    parse (Schema.providedText ++ "\n" ++ text) = .ok (Schema.withProvided d) := by
  have ⟨t, hd⟩ := parse_ok.mp h
  have he : (tokenize text.toList).Ends := scan_ends _ (Nat.lt_succ_self _)
  have hd := Parser.document_provided "skip" he hd
  have hd := Parser.document_provided "include" (he.append _) hd
  have ⟨_, d', t', hd', hq, _⟩ := Parser.document_takes _ _ _ _ (tokenize_provided text).symm hd
  cases hq
  exact parse_ok.mpr ⟨t', hd'⟩

end Graphql

namespace Schema

open Graphql (Document DirectiveDefinition parse)

variable {ε : Type} {builder : Document → Except ε Schema}
  {defined : Document → DirectiveDefinition → DirectiveType} {specified : List DirectiveType}
  {text : String} {d : Document} {e : Graphql.SyntaxError} {name : String}

theorem findSome_providedName :
    d.findSome? providedName? = none ↔ ¬ Declares "include" d ∧ ¬ Declares "skip" d := by
  rw [List.findSome?_eq_none_iff]
  constructor
  case mp =>
    intro h
    constructor
    all_goals
      intro ⟨x, hx, hn⟩
      simpa [providedName?, hn] using h _ hx
  case mpr =>
    intro ⟨hi, hs⟩ x hx
    cases x
    case directive x =>
      have hi : x.name ≠ "include" := fun hn => hi ⟨x, hx, hn⟩
      have hs : x.name ≠ "skip" := fun hn => hs ⟨x, hx, hn⟩
      simp [providedName?, hi, hs]
    all_goals rfl

theorem ofTextBy_syntaxError (h : parse text = .error e) :
    ofTextBy builder text = .error (.syntaxError (e.report text)) := by
  simp only [ofTextBy, parsed, h]
  rfl

theorem ofTextBy_ownDirective (h : parse text = .ok d)
    (hn : d.findSome? providedName? = some name) :
    ofTextBy builder text = .error (.ownDirective name) := by
  simp only [ofTextBy, parsed, h, Except.mapError, bind, Except.bind, hn]
  rfl

-- What is built is the document of the text on its own, after the definitions of the directives.
theorem ofTextBy_withProvided (h : parse text = .ok d) (hn : d.findSome? providedName? = none) :
    ofTextBy builder text = (builder (withProvided d)).mapError .schema := by
  simp only [ofTextBy, parsed, h, Graphql.parse_provided h, Except.mapError, bind, Except.bind, hn]

-- What is loaded from a text of definitions, told by the text on its own.
structure Conservative (builder : Document → Except ε Schema) (text : String)
    (loaded : Except (SchemaLoadFault ε) Schema) : Prop where
  fails : (∃ e, loaded = .error e) ↔ (∃ e, parse text = .error e) ∨
    ∃ d, parse text = .ok d ∧
      (Declares "include" d ∨ Declares "skip" d ∨ ∃ e, builder d = .error e)
  located (report : String) : loaded = .error (.syntaxError report) ↔
    ∃ e, parse text = .error e ∧ e.report text = report
  keeps (s : Schema) : loaded = .ok s → ∃ d own, parse text = .ok d ∧ builder d = .ok own ∧
    s.types.Perm own.types ∧ s.rootName = own.rootName ∧
    s.directives.filter (!·.isProvided) = own.directives.filter (!·.isProvided) ∧
    ∀ name ∈ ["include", "skip"], s.directives.filter (·.name = name) = [providedType name]

namespace Conservative

theorem ofSyntaxError (hp : parse text = .error e) :
    Conservative builder text (.error (.syntaxError (e.report text))) where
  fails := ⟨fun _ => .inl ⟨e, hp⟩, fun _ => ⟨_, rfl⟩⟩
  located report := by
    constructor
    · intro hr
      cases hr
      exact ⟨e, hp, rfl⟩
    · intro ⟨e', he', hr⟩
      cases hp.symm.trans he'
      rw [hr]
  keeps := nofun

-- Without a syntax error in the text there is none in what is read.
theorem located_of_ok (hp : parse text = .ok d) {loaded : Except (SchemaLoadFault ε) Schema}
    (h : ∀ report, loaded ≠ .error (.syntaxError report)) (report : String) :
    loaded = .error (.syntaxError report) ↔
      ∃ e, parse text = .error e ∧ e.report text = report := by
  constructor
  · exact fun hr => absurd hr (h report)
  · intro ⟨_, he, _⟩
    cases hp.symm.trans he

theorem ofDeclares (hp : parse text = .ok d) (hd : Declares "include" d ∨ Declares "skip" d) :
    Conservative builder text (.error (.ownDirective name)) where
  fails := ⟨fun _ => .inr ⟨d, hp, hd.imp_right .inl⟩, fun _ => ⟨_, rfl⟩⟩
  located := located_of_ok hp nofun
  keeps := nofun

theorem ofBuilder (hb : LawfulBuilder builder defined specified) (hp : parse text = .ok d)
    (hi : ¬ Declares "include" d) (hs : ¬ Declares "skip" d) :
    Conservative builder text ((builder (withProvided d)).mapError .schema) := by
  rcases hl : builder (withProvided d) with e | s
  case error =>
    have hf : ∃ e, builder d = .error e := by
      rcases ho : builder d with e | own
      case error => exact ⟨e, rfl⟩
      case ok =>
        have ⟨s, h⟩ := hb.builds_withProvided.mpr ⟨own, ho⟩
        cases hl.symm.trans h
    refine ⟨⟨fun _ => .inr ⟨d, hp, .inr (.inr hf)⟩, fun _ => ⟨_, rfl⟩⟩, ?_, nofun⟩
    exact located_of_ok hp nofun
  case ok =>
    have ⟨own, ho⟩ := hb.builds_withProvided.mp ⟨s, hl⟩
    refine ⟨⟨nofun, ?fails⟩, located_of_ok hp nofun, ?keeps⟩
    case fails =>
      intro h
      obtain ⟨e, he⟩ | ⟨d', hd', h⟩ := h
      · cases hp.symm.trans he
      · cases hp.symm.trans hd'
        obtain h | h | ⟨e, he⟩ := h
        · exact absurd h hi
        · exact absurd h hs
        · cases ho.symm.trans he
    case keeps =>
      intro s' h
      cases h
      have ⟨ht, hr⟩ := hb.types_withProvided hi hs hl ho
      have hd := hb.directives_withProvided hi hs hl ho
      refine ⟨d, own, hp, ho, ht, hr, ?_, ?_⟩
      · rw [hd, provided_others]
      · exact fun _ hn => hd ▸ filter_provided hn _

theorem ofTextBy (hb : LawfulBuilder builder defined specified) (text : String) :
    Conservative builder text (ofTextBy builder text) := by
  rcases hp : parse text with e | d
  case error => exact ofTextBy_syntaxError hp ▸ .ofSyntaxError hp
  case ok =>
    have hd := @findSome_providedName d
    rcases hn : d.findSome? providedName? with _ | name
    case none =>
      have ⟨hi, hs⟩ := hd.mp hn
      exact ofTextBy_withProvided hp hn ▸ .ofBuilder hb hp hi hs
    case some =>
      have hd : Declares "include" d ∨ Declares "skip" d := by
        by_contra h
        simp [hn, not_or.mp h] at hd
      exact ofTextBy_ownDirective hp hn ▸ .ofDeclares hp hd

end Conservative

end Schema

end GraphqlArtifacts
