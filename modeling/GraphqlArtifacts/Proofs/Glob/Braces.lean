import GraphqlArtifacts.Proofs.Glob.Alternatives
import GraphqlArtifacts.Proofs.Glob.Hidden

-- A choice in braces means what the texts that it stands for mean one by one: a pattern matches a
-- path exactly if it does with one of the texts in the place of the braces.

namespace GraphqlArtifacts.Glob

open Regex

def breaking : List Char :=
  ['/', '[', ']', '(', ')', '{', '}', ',']

-- A text that no slash, bracket or comma breaks up. Wildcards may stand in it.
def IsUnbroken (s : List Char) : Prop :=
  ∀ c ∈ s, c ∉ breaking

instance : DecidablePred IsUnbroken :=
  fun s => List.decidableBAll (· ∉ breaking) s

-- A segment with a choice of texts within.
def braced (start : List Char) (choices : List (List Char)) (later : List Char) : List Char :=
  start ++ '{' :: ([','].intercalate choices ++ '}' :: later)

def ofSegments (texts : List (List Char)) : String :=
  String.ofList (['/'].intercalate texts)

-- The pieces of a text without brackets: a piece for each character, and only the first guarded.
def plainPieces (leading : Bool) : List Char → List Piece
  | []        => []
  | c :: rest => plainPiece leading c :: plainPieces false rest

-- What some pieces take together.
def PiecesTake (ps : List Piece) (u v : List Char) : Prop :=
  ∃ r, piecesExpression? ps = some r ∧ r.Takes u v

variable {s s' u v start later text part rest : List Char} {c : Char} {fuel : Nat} {leading : Bool}
  {choices before after parts texts : List (List Char)} {ps qs : List Piece}
  {alternatives : List (List Piece)} {fits : List Char → List Char → Prop}

theorem IsUnbroken.not_mem (h : IsUnbroken s) (hc : c ∈ breaking) : c ∉ s :=
  fun hm => h c hm hc

theorem IsUnbroken.append (h : IsUnbroken s) (h' : IsUnbroken s') : IsUnbroken (s ++ s') :=
  List.forall_mem_append.mpr ⟨h, h'⟩

theorem IsUnbroken.isUncut (h : IsUnbroken s) : IsUncut ',' s := by
  intro c hm
  have hc := h c hm
  simp only [breaking, List.mem_cons, not_or] at hc
  simp [depthAfter, hc]

theorem not_mem_braced (hs : IsUnbroken start) (hc : ∀ choice ∈ choices, IsUnbroken choice)
    (hl : IsUnbroken later) (h : c = '/' ∨ c = '[' ∨ c = '(') :
    c ∉ braced start choices later := by
  have hm : c ∈ breaking ∧ c ≠ '{' ∧ c ≠ '}' ∧ c ≠ ',' := by
    obtain rfl | rfl | rfl := h <;> decide
  have hi := not_mem_intercalate (fun choice hm' => (hc choice hm').not_mem hm.left)
    hm.right.right.right
  simp [braced, hs.not_mem hm.left, hl.not_mem hm.left, hi, hm]

theorem braced_ne (h : '{' ∉ text) : braced start choices later ≠ text := by
  rintro rfl
  simp [braced] at h

-- Reading

theorem plainPieces_append : plainPieces leading (s ++ s') =
    plainPieces leading s ++ plainPieces (leading && s.isEmpty) s' := by
  cases s
  case nil => simp [plainPieces]
  case cons c s =>
    induction s generalizing leading c
    case nil => simp [plainPieces]
    case cons next s hi => simpa [plainPieces] using @hi false next

-- Characters that open nothing are read one by one.
theorem readPieces_append (hs : '{' ∉ s ∧ '[' ∉ s) (hp : '(' ∉ s ++ s')
    (hf : (s ++ s').length ≤ fuel) : readPieces fuel leading (s ++ s') =
      plainPieces leading s ++ readPieces (fuel - s.length) (leading && s.isEmpty) s' := by
  induction s generalizing fuel leading
  case nil => simp [plainPieces]
  case cons c s hi =>
    obtain ⟨fuel, rfl⟩ : ∃ n, fuel = n + 1 := ⟨fuel - 1, by simp at hf; omega⟩
    simp only [List.mem_cons, not_or] at hs
    rw [List.cons_append, List.mem_cons, not_or] at hp
    have ⟨p, after, he, _, hcase⟩ := readPieces_cons fuel leading c (s ++ s')
    obtain ⟨_, _, _, _, _, hg | rfl⟩ | ⟨_, _, rfl⟩ | ⟨rfl, rfl⟩ := hcase
    case inl.inl => exact absurd hg hp.right
    case inl.inr => exact absurd rfl hs.left.left
    case inr.inl => exact absurd rfl hs.right.left
    case inr.inr =>
      rw [List.cons_append, he, hi ⟨hs.left.right, hs.right.right⟩ hp.right (by simpa using hf)]
      simp [plainPieces]

theorem readPieces_ungrouped (hp : '(' ∉ s) (hb : '{' ∉ s) (hset : '[' ∉ s) (hf : s.length ≤ fuel) :
    readPieces fuel leading s = plainPieces leading s := by
  have hr := @readPieces_append s [] fuel leading ⟨hb, hset⟩ (by simpa using hp) (by simpa using hf)
  have hnil (n : Nat) (b : Bool) : readPieces n b [] = [] := by cases n <;> rfl
  simpa [hnil] using hr

theorem readPieces_unbroken (h : IsUnbroken s) (hf : s.length ≤ fuel) :
    readPieces fuel leading s = plainPieces leading s :=
  readPieces_ungrouped (h.not_mem (by decide)) (h.not_mem (by decide)) (h.not_mem (by decide)) hf

theorem readPieces_brace (hc : ∀ choice ∈ choices, IsUnbroken choice) (hn : choices ≠ [])
    (hl : IsUnbroken later) (hf : ([','].intercalate choices ++ '}' :: later).length ≤ fuel) :
    readPieces (fuel + 1) leading ('{' :: ([','].intercalate choices ++ '}' :: later)) =
      .group .once (choices.map (plainPieces leading)) :: plainPieces false later := by
  have hclosing : splitClosing '{' '}' 0 ([','].intercalate choices ++ '}' :: later) =
      some ([','].intercalate choices, later) :=
    splitClosing_of_not_mem (by decide)
      (not_mem_intercalate (fun choice hm => (hc choice hm).not_mem (by decide)) (by decide))
      (not_mem_intercalate (fun choice hm => (hc choice hm).not_mem (by decide)) (by decide))
  have hcut := splitTopLevel_intercalate ',' (by decide) hn
    fun choice hm => (hc choice hm).isUncut
  simp only [List.length_append, List.length_cons] at hf
  have hread : choices.map (readPieces fuel leading) = choices.map (plainPieces leading) := by
    refine List.map_congr_left fun choice hm => readPieces_unbroken (hc choice hm) ?_
    have := length_le_intercalate ',' hm
    omega
  simp [readPieces, Quantifier.ofSign?, hclosing, hcut, hread,
    readPieces_unbroken hl (show later.length ≤ fuel by omega)]

theorem readPieces_braced (hs : IsUnbroken start) (hc : ∀ choice ∈ choices, IsUnbroken choice)
    (hn : choices ≠ []) (hl : IsUnbroken later) :
    readPieces (braced start choices later).length true (braced start choices later) =
      plainPieces true start ++ .group .once (choices.map (plainPieces start.isEmpty)) ::
        plainPieces false later := by
  have hp : '(' ∉ braced start choices later := not_mem_braced hs hc hl (by simp)
  have hlen : (braced start choices later).length - start.length =
      ([','].intercalate choices ++ '}' :: later).length + 1 := by
    simp [braced]
  rw [braced] at hp hlen ⊢
  rw [readPieces_append ⟨hs.not_mem (by decide), hs.not_mem (by decide)⟩ hp (Nat.le_refl _), hlen,
    readPieces_brace hc hn hl (Nat.le_refl _), Bool.true_and]

-- Taking

theorem piecesTake_nil_iff : PiecesTake [] u v ↔ u = [] := by
  simp [PiecesTake, piecesExpression?]

theorem piecesTake_cons_iff {p : Piece} : PiecesTake (p :: ps) u v ↔
    ∃ u₁ u₂, u = u₁ ++ u₂ ∧ (∃ r, p.expression? = some r ∧ r.Takes u₁ (u₂ ++ v)) ∧
      PiecesTake ps u₂ v := by
  constructor
  case mp =>
    rintro ⟨r, hr, ht⟩
    obtain ⟨r₁, r₂, h₁, h₂, rfl⟩ := piecesExpression_cons hr
    have ⟨u₁, u₂, hu, ht₁, ht₂⟩ := takes_cat_iff.mp ht
    exact ⟨u₁, u₂, hu, ⟨r₁, h₁, ht₁⟩, r₂, h₂, ht₂⟩
  case mpr =>
    rintro ⟨u₁, u₂, rfl, ⟨r₁, h₁, ht₁⟩, r₂, h₂, ht₂⟩
    exact ⟨.cat r₁ r₂, by simp [piecesExpression?, h₁, h₂], .cat ht₁ ht₂⟩

theorem piecesTake_append_iff : PiecesTake (ps ++ qs) u v ↔
    ∃ u₁ u₂, u = u₁ ++ u₂ ∧ PiecesTake ps u₁ (u₂ ++ v) ∧ PiecesTake qs u₂ v := by
  induction ps generalizing u
  case nil => simp [piecesTake_nil_iff]
  case cons p ps hi =>
    simp only [List.cons_append, piecesTake_cons_iff, hi]
    constructor
    case mp =>
      rintro ⟨u₁, _, rfl, hp, u₂, u₃, rfl, hps, hqs⟩
      exact ⟨u₁ ++ u₂, u₃, by simp, ⟨u₁, u₂, rfl, by simpa using hp, hps⟩, hqs⟩
    case mpr =>
      rintro ⟨_, u₃, rfl, ⟨u₁, u₂, rfl, hp, hps⟩, hqs⟩
      exact ⟨u₁, u₂ ++ u₃, by simp, by simpa using hp, u₂, u₃, rfl, hps, hqs⟩

theorem exists_expressions (h : ∀ ps ∈ alternatives, ∃ r, piecesExpression? ps = some r) :
    ∃ rs, expressions? alternatives = some rs ∧ (rs = [] ↔ alternatives = []) ∧
      ∀ u v, (∃ r ∈ rs, r.Takes u v) ↔ ∃ ps ∈ alternatives, PiecesTake ps u v := by
  induction alternatives
  case nil => exact ⟨[], rfl, by simp⟩
  case cons ps alternatives hi =>
    rw [List.forall_mem_cons] at h
    have ⟨r, hr⟩ := h.left
    have ⟨rs, hrs, _, ht⟩ := hi h.right
    exact ⟨r :: rs, by simp [expressions?, hr, hrs], by simp, by simp [ht, PiecesTake, hr]⟩

theorem exists_plainPieces_expression (leading : Bool) (s : List Char) :
    ∃ r, piecesExpression? (plainPieces leading s) = some r := by
  induction s generalizing leading
  case nil => exact ⟨_, rfl⟩
  case cons c s hi =>
    have ⟨r, hr, _⟩ := plainPiece_expression leading c
    have ⟨rs, hrs⟩ := hi false
    exact ⟨.cat r rs, by simp [plainPieces, piecesExpression?, hr, hrs]⟩

-- A choice takes what one of its texts takes.
theorem choice_takes_iff (hn : choices ≠ []) :
    (∃ r, (Piece.group .once (choices.map (plainPieces leading))).expression? = some r ∧
      r.Takes u v) ↔ ∃ choice ∈ choices, PiecesTake (plainPieces leading choice) u v := by
  have hr : ∀ ps ∈ choices.map (plainPieces leading), ∃ r, piecesExpression? ps = some r :=
    List.forall_mem_map.mpr fun choice _ => exists_plainPieces_expression leading choice
  have ⟨rs, hrs, he, ht⟩ := exists_expressions hr
  have hne : rs ≠ [] := by simpa [he] using hn
  simp [Piece.expression?, hrs, Quantifier.apply, takes_altAll_iff, hne, ht]

-- Only the first character of a segment is guarded. It is in the choice just if nothing is before
-- it, and then no text of the choice leaves the guard to what follows.
theorem choice_replaced_iff (hn : choices ≠ [])
    (hg : start ≠ [] ∨ ∀ choice ∈ choices, choice ≠ []) :
    PiecesTake (plainPieces true start ++ .group .once (choices.map (plainPieces start.isEmpty)) ::
        plainPieces false later) u v ↔
      ∃ choice ∈ choices, PiecesTake (plainPieces true (start ++ choice ++ later)) u v := by
  have hunguarded {choice : List Char} (hm : choice ∈ choices) :
      plainPieces true (start ++ choice ++ later) =
        plainPieces true start ++ (plainPieces start.isEmpty choice ++ plainPieces false later) := by
    have hne : start ++ choice ≠ [] := by
      cases hg
      case inl h => simp [h]
      case inr h => simp [h choice hm]
    have he : (start ++ choice).isEmpty = false := by simpa using hne
    rw [plainPieces_append, plainPieces_append, he, List.append_assoc, Bool.true_and, Bool.and_false]
  rw [piecesTake_append_iff]
  simp only [piecesTake_cons_iff, choice_takes_iff hn]
  constructor
  case mp =>
    rintro ⟨u₁, _, rfl, h₁, u₂, u₃, rfl, ⟨choice, hm, h₂⟩, h₃⟩
    refine ⟨choice, hm, ?_⟩
    rw [hunguarded hm, piecesTake_append_iff]
    exact ⟨u₁, u₂ ++ u₃, rfl, h₁, piecesTake_append_iff.mpr ⟨u₂, u₃, rfl, h₂, h₃⟩⟩
  case mpr =>
    rintro ⟨choice, hm, h⟩
    rw [hunguarded hm, piecesTake_append_iff] at h
    obtain ⟨u₁, _, rfl, h₁, h⟩ := h
    obtain ⟨u₂, u₃, rfl, h₂, h₃⟩ := piecesTake_append_iff.mp h
    exact ⟨u₁, u₂ ++ u₃, rfl, h₁, u₂, u₃, rfl, ⟨choice, hm, h₂⟩, h₃⟩

-- Segments

theorem fits_iff_takes (hs : '/' ∉ text) (hd : text ≠ ['*', '*']) (hset : '[' ∉ text) :
    Fits text part ↔ PiecesTake (readPieces text.length true text) part [] := by
  have hl := @leaves_inside text text (by simp [sets_eq_nil hset])
    (by simp [dropDotSlash_of_not_mem hs, splitSlashes_of_not_mem hs])
  have ⟨r, hr, _, hf⟩ := segment_expression hs hd hl
  simp [hf, PiecesTake, hr]

theorem fits_braced_iff (hs : IsUnbroken start) (hc : ∀ choice ∈ choices, IsUnbroken choice)
    (hl : IsUnbroken later) (hn : choices ≠ [])
    (hg : start ≠ [] ∨ ∀ choice ∈ choices, choice ≠ [])
    (hx : ∀ choice ∈ choices, start ++ choice ++ later ≠ ['*', '*']) :
    Fits (braced start choices later) part ↔
      ∃ choice ∈ choices, Fits (start ++ choice ++ later) part := by
  have hne : braced start choices later ≠ ['*', '*'] := braced_ne (by decide)
  rw [fits_iff_takes (not_mem_braced hs hc hl (by simp)) hne (not_mem_braced hs hc hl (by simp)),
    readPieces_braced hs hc hn hl, choice_replaced_iff hn hg]
  refine exists_congr fun choice => and_congr_right fun hm => ?_
  have hu := (hs.append (hc choice hm)).append hl
  rw [fits_iff_takes (hu.not_mem (by decide)) (hx choice hm) (hu.not_mem (by decide)),
    readPieces_unbroken hu (Nat.le_refl _)]

-- Where a segment stands among others does not depend on the segment, unless it is a globstar.
theorem cuts_replaced_iff {replaced : List Char → List Char} (hd : text ≠ ['*', '*'])
    (hds : ∀ choice ∈ choices, replaced choice ≠ ['*', '*'])
    (hf : ∀ part, fits text part ↔ ∃ choice ∈ choices, fits (replaced choice) part) :
    Cuts fits (before ++ text :: after) parts ↔
      ∃ choice ∈ choices, Cuts fits (before ++ replaced choice :: after) parts := by
  induction before generalizing parts
  case nil =>
    have hcuts {choice : List Char} (hm : choice ∈ choices) :=
      @cuts_pieces _ parts after fits (hds choice hm)
    simp only [List.nil_append, cuts_pieces hd, hf]
    grind
  case cons first before hi =>
    by_cases hfirst : first = ['*', '*']
    case pos =>
      have hne (text : List Char) : before ++ text :: after ≠ [] := by simp
      simp only [hfirst, List.cons_append, cuts_anyDepth (hne _), hi]
      grind
    case neg =>
      simp only [List.cons_append, cuts_pieces hfirst, hi]
      grind

-- Patterns

-- The segments before another one, without the dot that a pattern may start with.
def withoutDot (before : List (List Char)) : List (List Char) :=
  if before.head? = some ['.'] then before.tail else before

theorem splitSlashes_dropDotSlash (ht : text ≠ ['.'])
    (h : splitSlashes s = before ++ text :: after) :
    splitSlashes (dropDotSlash s) = withoutDot before ++ text :: after := by
  unfold dropDotSlash
  split
  case h_1 rest =>
    have hs : splitSlashes ('.' :: '/' :: rest) = ['.'] :: splitSlashes rest :=
      splitSlashes_append_slash (u := ['.']) (by decide)
    rw [hs] at h
    cases before
    case nil => exact absurd (List.cons.inj h).left.symm ht
    case cons first before =>
      obtain ⟨rfl, hr⟩ := List.cons.inj h
      simpa [withoutDot] using hr
  case h_2 hs =>
    have hd : before.head? ≠ some ['.'] := by
      intro hd
      obtain ⟨before, rfl⟩ := List.head?_eq_some_iff.mp hd
      have hj := intercalate_splitSlashes s
      rw [h] at hj
      cases before <;> exact hs _ hj.symm
    rw [withoutDot, if_neg hd, h]

theorem accepts_segments {pattern : String} (path : String) (ht : text ≠ ['.'])
    (hs : splitSlashes pattern.toList = before ++ text :: after)
    (hset : ∀ segment ∈ before ++ text :: after, '[' ∉ segment) :
    ∃ b, accepts pattern path = .ok b ∧
      (b ↔ Cuts Fits (withoutDot before ++ text :: after) (splitSlashes path.toList)) := by
  have hp : '[' ∉ pattern.toList := by
    rw [← intercalate_splitSlashes pattern.toList, hs]
    exact not_mem_intercalate hset (by decide)
  have h := @accepts_ordinary_iff pattern path (by simp [sets_eq_nil hp])
  rwa [splitSlashes_dropDotSlash ht hs] at h

theorem splitSlashes_ofSegments (hn : texts ≠ []) (h : ∀ text ∈ texts, '/' ∉ text) :
    splitSlashes (ofSegments texts).toList = texts := by
  rw [ofSegments, String.toList_ofList, splitSlashes_intercalate hn h]

-- A pattern with a choice in braces matches the paths that the patterns with one of its texts in
-- the place of the braces match. All these patterns stand for an expression.
theorem accepts_braced_iff {pattern path : String}
    (hp : splitSlashes pattern.toList = before ++ braced start choices later :: after)
    (hs : IsUnbroken start) (hc : ∀ choice ∈ choices, IsUnbroken choice) (hl : IsUnbroken later)
    (hn : choices ≠ []) (hset : ∀ segment ∈ before ++ after, '[' ∉ segment)
    (hg : start ≠ [] ∨ ∀ choice ∈ choices, choice ≠ [])
    (hx : ∀ choice ∈ choices,
      start ++ choice ++ later ≠ ['*', '*'] ∧ start ++ choice ++ later ≠ ['.']) :
    (∃ b, accepts pattern path = .ok b) ∧
    (∀ choice ∈ choices, ∃ b,
      accepts (ofSegments (before ++ (start ++ choice ++ later) :: after)) path = .ok b) ∧
    (accepts pattern path = .ok true ↔ ∃ choice ∈ choices,
      accepts (ofSegments (before ++ (start ++ choice ++ later) :: after)) path = .ok true) := by
  have hslash : ∀ segment ∈ before ++ after, '/' ∉ segment := by
    intro segment hm
    refine slash_not_mem (s := pattern.toList) ?_
    rw [hp]
    grind
  have hwith {P : List Char → Prop} {text : List Char} (h : ∀ segment ∈ before ++ after, P segment)
      (ht : P text) : ∀ segment ∈ before ++ text :: after, P segment := by
    grind
  have ⟨b, hb, hcuts⟩ := accepts_segments path (braced_ne (by decide)) hp <|
    hwith hset <| not_mem_braced hs hc hl (by simp)
  have hreplaced (choice : List Char) (hm : choice ∈ choices) := by
    have hu := (hs.append (hc choice hm)).append hl
    exact accepts_segments path (hx choice hm).right
      (splitSlashes_ofSegments (by simp) <| hwith hslash <| hu.not_mem (by decide))
      (hwith hset <| hu.not_mem (by decide))
  refine ⟨⟨b, hb⟩, fun choice hm => (hreplaced choice hm).imp fun _ h => h.left, ?_⟩
  have hdepth (choice : List Char) (hm : choice ∈ choices) := (hx choice hm).left
  rw [hb, Except.ok.injEq, hcuts, cuts_replaced_iff (braced_ne (by decide)) hdepth
    fun _ => fits_braced_iff hs hc hl hn hg hdepth]
  refine exists_congr fun choice => and_congr_right fun hm => ?_
  have ⟨b', hb', hcuts'⟩ := hreplaced choice hm
  rw [hb', Except.ok.injEq, hcuts']

def testPattern : String :=
  "./lib/**/\x7b*.test,index\x7d*.js"

def testPath : String :=
  "lib/ui/App.test.old.js"

-- The choice stands at the start of its segment, after a globstar and before a wildcard.
theorem accepts_braced_tests :
    splitSlashes testPattern.toList = [['.'], "lib".toList, "**".toList] ++
      braced [] ["*.test".toList, "index".toList] "*.js".toList :: [] ∧
    accepts testPattern testPath = .ok true ∧
    ∃ choice ∈ ["*.test".toList, "index".toList], accepts (ofSegments
      ([['.'], "lib".toList, "**".toList] ++ ([] ++ choice ++ "*.js".toList) :: [])) testPath =
        .ok true := by
  have hp : splitSlashes testPattern.toList = [['.'], "lib".toList, "**".toList] ++
      braced [] ["*.test".toList, "index".toList] "*.js".toList :: [] := by decide
  have ha : accepts testPattern testPath = .ok true := by decide +kernel
  exact ⟨hp, ha, (accepts_braced_iff hp (by decide) (by decide) (by decide) (by decide) (by decide)
    (by decide) (by decide)).right.right.mp ha⟩

-- An empty text at the start of a segment would leave the guard against a dot to what follows.
example : accepts "\x7b,a\x7d*" ".b" = .ok true ∧ accepts "*" ".b" = .ok false ∧
    accepts "a*" ".b" = .ok false := by
  decide +kernel

end GraphqlArtifacts.Glob
