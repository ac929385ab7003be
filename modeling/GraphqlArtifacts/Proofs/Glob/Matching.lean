import GraphqlArtifacts.Proofs.Glob.Segments

namespace GraphqlArtifacts

open Regex

namespace Glob

def Segment.leaves : Segment → List Piece
  | .anyDepth  => []
  | .pieces ps => piecesLeaves ps

-- The bodies of the sets in a pattern.
def sets (pattern : List Char) : List (List Char) :=
  ((segments pattern).flatMap Segment.leaves).filterMap Piece.body?

-- The segments of a path, shared out among those of a pattern in their order. All but `**` get one
-- that fits. A `**` gets any number of them, the last one at least one.
def Cuts (fits : List Char → List Char → Prop) : List (List Char) → List (List Char) → Prop
  | [], parts => parts = []
  | [last], parts =>
    if last = ['*', '*'] then parts ≠ [] ∧ ∀ part ∈ parts, ¬ IsHidden part
    else ∃ part, parts = [part] ∧ fits last part
  | segment :: rest, parts =>
    if segment = ['*', '*'] then
      ∃ taken later, parts = taken ++ later ∧ (∀ part ∈ taken, part ≠ [] ∧ ¬ IsHidden part) ∧
        Cuts fits rest later
    else
      ∃ part later, parts = part :: later ∧ fits segment part ∧ Cuts fits rest later

-- A segment of a pattern, taken for a pattern of its own, matches a segment of a path.
def Fits (segment part : List Char) : Prop :=
  accepts (String.ofList segment) (String.ofList part) = .ok true

-- The usual meaning of the wildcards.
def Wild : List Char → List Char → Prop
  | [], part          => part = []
  | '*' :: rest, part => ∃ run later, part = run ++ later ∧ Wild rest later
  | '?' :: rest, part => ∃ c later, part = c :: later ∧ Wild rest later
  | c :: rest, part   => ∃ later, part = c :: later ∧ Wild rest later

variable {pattern text part s u v : List Char} {c : Char} {p : Piece} {segment : Segment}
  {r : Regex}
  {texts parts rest : List (List Char)} {guarded : Bool} {fits : List Char → List Char → Prop}

theorem cuts_last :
    Cuts fits [['*', '*']] parts ↔ parts ≠ [] ∧ ∀ part ∈ parts, ¬ IsHidden part := by
  simp [Cuts]

theorem cuts_anyDepth (hr : rest ≠ []) : Cuts fits (['*', '*'] :: rest) parts ↔
    ∃ taken later, parts = taken ++ later ∧ (∀ part ∈ taken, part ≠ [] ∧ ¬ IsHidden part) ∧
      Cuts fits rest later := by
  cases rest
  case nil  => contradiction
  case cons => simp [Cuts]

theorem cuts_pieces (hs : text ≠ ['*', '*']) : Cuts fits (text :: rest) parts ↔
    ∃ part later, parts = part :: later ∧ fits text part ∧ Cuts fits rest later := by
  cases rest
  case nil  => simp [Cuts, hs]
  case cons => simp [Cuts, hs]

theorem cuts_ne_nil (hn : texts ≠ []) (h : Cuts fits texts parts) : parts ≠ [] := by
  induction texts generalizing parts
  case nil => contradiction
  case cons text rest hi =>
    by_cases hs : text = ['*', '*']
    case neg =>
      obtain ⟨part, later, rfl, _⟩ := (cuts_pieces hs).mp h
      simp
    case pos =>
      subst hs
      by_cases hr : rest = []
      case pos =>
        subst hr
        exact (cuts_last.mp h).left
      case neg =>
        obtain ⟨taken, later, rfl, _, h⟩ := (cuts_anyDepth hr).mp h
        exact List.append_ne_nil_of_right_ne_nil _ <| hi hr h

theorem accepts_of_some {pattern path : String} (h : expression? pattern.toList = some r) :
    accepts pattern path = .ok (r.accepts path.toList) := by
  simp [accepts, h]

theorem dropDotSlash_of_not_mem (h : '/' ∉ s) : dropDotSlash s = s := by
  unfold dropDotSlash
  split
  · simp at h
  · rfl

theorem takes_guarded_iff : (Regex.cat (guardExpression guarded) r).Takes u v ↔
    r.Takes u v ∧ (guarded → (u ++ v).head? ≠ some '.') := by
  cases guarded <;> simp [guardExpression, takes_cat_iff, and_comm]

-- A segment that stands for itself

-- An ordinary set has an end of its own: one without is the set of all characters.
theorem not_isOpen (h : p.IsInside) : ¬ p.isOpen := by
  cases p
  case set guarded body =>
    obtain ⟨set, hs, hn, _⟩ : IsOrdinary body := h
    have hall : (⟨true, []⟩ : CharSet).contains '/' := by decide
    simp only [Piece.isOpen, Bool.or_eq_true, beq_iff_eq]
    rintro (rfl | rfl)
    · exact hn <| Option.some.inj hs ▸ hall
    · exact hn <| Option.some.inj hs ▸ hall
  case group => cases h
  all_goals simp [Piece.isOpen]

theorem segment_not_isOpen (h : ∀ leaf ∈ segment.leaves, leaf.IsInside) : ¬ segment.isOpen := by
  cases segment
  case anyDepth => simp [Segment.isOpen]
  case pieces ps =>
    simp only [Segment.isOpen, anyOpen_eq, List.any_eq_true, not_exists, not_and]
    exact fun leaf hm => not_isOpen <| h leaf hm

theorem leaves_inside (h : ∀ body ∈ sets pattern, IsOrdinary body)
    (hm : text ∈ splitSlashes (dropDotSlash pattern)) :
    ∀ leaf ∈ (Segment.ofText text).leaves, leaf.IsInside := by
  intro leaf hl
  have hbody {body : List Char} (hb : leaf.body? = some body) : IsOrdinary body :=
    h body <| List.mem_filterMap.mpr
      ⟨leaf, List.mem_flatMap.mpr ⟨_, List.mem_map_of_mem hm, hl⟩, hb⟩
  have hfrom : leaf.ComesFrom text := by
    unfold Segment.ofText at hl
    split at hl
    case isTrue  => simp [Segment.leaves] at hl
    case isFalse => exact readPieces_comesFrom hl
  cases leaf
  case char c =>
    rintro rfl
    exact slash_not_mem hm hfrom
  case set   => exact hbody rfl
  case group => exact hfrom
  all_goals trivial

theorem expression_segments (h : ∀ body ∈ sets pattern, IsOrdinary body) :
    expression? pattern = segmentsExpression? (segments pattern) := by
  have hn : ¬ (segments pattern).any Segment.isOpen := by
    simp only [segments, List.any_map, List.any_eq_true, not_exists, not_and]
    exact fun text hm => segment_not_isOpen <| leaves_inside h hm
  simp [expression?, hn]

-- A pattern that is one segment has the expression of its pieces.
theorem segment_expression (hs : '/' ∉ text) (hd : text ≠ ['*', '*'])
    (h : ∀ leaf ∈ (Segment.ofText text).leaves, leaf.IsInside) :
    ∃ r, piecesExpression? (readPieces text.length true text) = some r ∧ r.StaysInside ∧
      ∀ part, Fits text part ↔ r.Takes part [] := by
  have ho : Segment.ofText text = .pieces (readPieces text.length true text) := if_neg hd
  have hn := segment_not_isOpen h
  rw [ho] at h hn
  have ⟨r, hr, hi⟩ := piecesExpression_inside _ h
  refine ⟨r, hr, hi, fun part => ?_⟩
  have he : expression? (String.ofList text).toList = some r := by
    simp [expression?, segments, dropDotSlash_of_not_mem hs, splitSlashes_of_not_mem hs, ho, hn,
      segmentsExpression?, hr]
  rw [Fits, accepts_of_some he, String.toList_ofList, Except.ok.injEq, accepts_iff]

-- The segments of a pattern take their shares of a path

section

variable (hr : rest ≠ []) (hc : ∀ s, r.Takes s [] ↔ Cuts Fits rest (splitSlashes s))

include hr hc

theorem takes_anyDirectories_cat_iff : (Regex.cat anyDirectories r).Takes s [] ↔
    Cuts Fits (['*', '*'] :: rest) (splitSlashes s) := by
  simp only [takes_cat_iff, takes_anyDirectories_iff, hc, cuts_anyDepth hr]
  constructor
  case mp =>
    rintro ⟨_, v, rfl, ⟨names, rfl, hn⟩, hv⟩
    exact ⟨names, _, splitSlashes_flatMap fun name hm => (hn name hm).right.left,
      fun name hm => ⟨(hn name hm).left, (hn name hm).right.right⟩, hv⟩
  case mpr =>
    rintro ⟨taken, later, hs, ht, hl⟩
    have hno (part) (hm : part ∈ taken ++ later) : '/' ∉ part := slash_not_mem <| hs ▸ hm
    have hne := cuts_ne_nil hr hl
    refine ⟨_, _, eq_flatMap_append hs hne, ⟨taken, rfl, fun name hm => ?_⟩, ?_⟩
    · exact ⟨(ht name hm).left, hno name <| List.mem_append_left _ hm, (ht name hm).right⟩
    · rwa [splitSlashes_intercalate hne fun part hm => hno part <| List.mem_append_right _ hm]

theorem takes_segment_cat_iff {r' : Regex} (hd : text ≠ ['*', '*']) (hi : r'.StaysInside)
    (hf : ∀ part, Fits text part ↔ r'.Takes part []) :
    (Regex.cat r' (.cat (.char '/') r)).Takes s [] ↔ Cuts Fits (text :: rest) (splitSlashes s) := by
  have hslash {u v : List Char} : r'.Takes u ('/' :: v) ↔ r'.Takes u [] :=
    ⟨fun h => h.congr (by simp), fun h => h.congr (by simp)⟩
  simp only [takes_cat_iff, takes_char_iff, hc, cuts_pieces hd, hf]
  constructor
  case mp =>
    rintro ⟨u, _, rfl, hu, _, v, rfl, rfl, hv⟩
    rw [List.append_nil, List.singleton_append, hslash] at hu
    exact ⟨u, _, splitSlashes_append_slash (hi _ _ hu), hu, hv⟩
  case mpr =>
    rintro ⟨part, later, hs, hp, hl⟩
    have hne := cuts_ne_nil hr hl
    obtain rfl : s = part ++ '/' :: ['/'].intercalate later := by
      simpa using @eq_flatMap_append _ [part] _ hs hne
    refine ⟨part, _, rfl, by simpa [hslash] using hp, ['/'], ['/'].intercalate later, rfl, rfl, ?_⟩
    rwa [splitSlashes_intercalate hne fun part hm =>
      slash_not_mem (hs ▸ List.mem_cons_of_mem _ hm)]

end

-- The last segment takes all that is left of a path, if it has no slash.
theorem takes_segment_iff (hd : text ≠ ['*', '*']) (hi : r.StaysInside)
    (hf : ∀ part, Fits text part ↔ r.Takes part []) :
    r.Takes s [] ↔ Cuts Fits [text] (splitSlashes s) := by
  simp only [Cuts, hd, if_false, hf]
  constructor
  case mp =>
    intro h
    exact ⟨s, splitSlashes_of_not_mem (hi _ _ h), h⟩
  case mpr =>
    rintro ⟨part, hs, hp⟩
    rw [← intercalate_splitSlashes s, hs]
    simpa using hp

theorem segmentsExpression_inside (hn : texts ≠ [])
    (h : ∀ text ∈ texts, '/' ∉ text ∧ ∀ leaf ∈ (Segment.ofText text).leaves, leaf.IsInside) :
    ∃ r, segmentsExpression? (texts.map Segment.ofText) = some r ∧
      ∀ s, r.Takes s [] ↔ Cuts Fits texts (splitSlashes s) := by
  induction texts
  case nil => contradiction
  case cons text rest hi =>
    have ⟨⟨hs, hl⟩, hrest⟩ := List.forall_mem_cons.mp h
    by_cases hd : text = ['*', '*']
    case pos =>
      subst hd
      cases rest
      case nil =>
        refine ⟨anyPath, rfl, fun s => ?_⟩
        simp [takes_anyPath_iff, cuts_last]
      case cons next rest =>
        have ⟨r, he, hc⟩ := hi (by simp) hrest
        refine ⟨.cat anyDirectories r, ?_, fun s => takes_anyDirectories_cat_iff (by simp) hc⟩
        have ho : Segment.ofText ['*', '*'] = .anyDepth := rfl
        simp only [List.map_cons] at he
        simp [ho, segmentsExpression?, he]
    case neg =>
      have ho : Segment.ofText text = .pieces (readPieces text.length true text) := if_neg hd
      have ⟨r', he', hr', hf⟩ := segment_expression hs hd hl
      cases rest
      case nil =>
        exact ⟨r', by simp [ho, segmentsExpression?, he'], fun s => takes_segment_iff hd hr' hf⟩
      case cons next rest =>
        have ⟨r, he, hc⟩ := hi (by simp) hrest
        refine ⟨.cat r' (.cat (.char '/') r), ?_, fun s => ?_⟩
        case refine_2 => exact takes_segment_cat_iff (by simp) hc hd hr' hf
        simp only [List.map_cons] at he
        simp [ho, segmentsExpression?, he, he']

-- A pattern whose sets are ordinary matches the paths that can be cut as it asks.
theorem accepts_ordinary_iff {pattern path : String}
    (h : ∀ body ∈ sets pattern.toList, IsOrdinary body) : ∃ b, accepts pattern path = .ok b ∧
      (b ↔ Cuts Fits (splitSlashes (dropDotSlash pattern.toList)) (splitSlashes path.toList)) := by
  have ⟨r, hr, hc⟩ := segmentsExpression_inside splitSlashes_ne_nil fun text hm =>
    ⟨slash_not_mem hm, leaves_inside h hm⟩
  have he : expression? pattern.toList = some r := (expression_segments h).trans hr
  exact ⟨_, accepts_of_some he, accepts_iff.trans <| hc _⟩

-- Segments without groups and sets

-- What one character of a wildcard pattern takes.
def Spans (c : Char) (u : List Char) : Prop :=
  if c = '*' then True else if c = '?' then u.length = 1 else u = [c]

theorem wild_cons {pieces : List Char} :
    Wild (c :: pieces) part ↔ ∃ u later, part = u ++ later ∧ Spans c u ∧ Wild pieces later := by
  by_cases hstar : c = '*'
  case pos => simp [hstar, Wild, Spans]
  case neg =>
    by_cases hquestion : c = '?'
    case pos =>
      simp only [hquestion, Wild, Spans, List.length_eq_one_iff]
      constructor
      case mp  => exact fun ⟨d, later, hp, hw⟩ => ⟨[d], later, hp, by simp, hw⟩
      case mpr => exact fun ⟨u, later, hp, ⟨d, hu⟩, hw⟩ => ⟨d, later, by simp [hp, hu], hw⟩
    case neg => simp [hstar, hquestion, Wild, Spans]

-- Within a segment, a plain piece takes what its character spans. The guard is a wildcard's.
theorem plainPiece_expression (leading : Bool) (c : Char) :
    ∃ r, (plainPiece leading c).expression? = some r ∧ ∀ u v, '/' ∉ u →
      (r.Takes u v ↔
        Spans c u ∧ (leading → c = '*' ∨ c = '?' → (u ++ v).head? ≠ some '.')) := by
  by_cases hstar : c = '*'
  case pos =>
    subst hstar
    refine ⟨_, rfl, fun u v hu => ?_⟩
    simp [takes_guarded_iff, Spans, hu]
  case neg =>
    by_cases hquestion : c = '?'
    case pos =>
      subst hquestion
      refine ⟨.cat (guardExpression leading) (.one .notSlash), rfl, fun u v hu => ?_⟩
      have hone : (Regex.one .notSlash).Takes u v ↔ u.length = 1 := by
        rw [takes_one_iff, List.length_eq_one_iff]
        refine exists_congr fun d => and_iff_left_of_imp ?_
        rintro rfl
        exact contains_notSlash.mpr <| Ne.symm <| List.ne_of_not_mem_cons hu
      rw [takes_guarded_iff, hone]
      simp [Spans]
    case neg =>
      refine ⟨.char c, by simp [plainPiece, hstar, hquestion, Piece.expression?], fun u v _ => ?_⟩
      simp [Spans, hstar, hquestion]

-- Each character is a piece, and only the first one may be guarded.
theorem readPieces_plain {pieces : List Char} {leading : Bool} (hp : '(' ∉ c :: pieces)
    (hb : '{' ∉ c :: pieces) (hs : '[' ∉ c :: pieces) :
    readPieces (c :: pieces).length leading (c :: pieces) =
      plainPiece leading c :: readPieces pieces.length false pieces := by
  have ⟨p, after, he, _, hcase⟩ := readPieces_cons pieces.length leading c pieces
  obtain ⟨_, _, _, _, _, hg⟩ | ⟨_, _, rfl⟩ | ⟨rfl, rfl⟩ := hcase
  case inl =>
    cases hg
    case inl hg => exact absurd (List.mem_cons_of_mem _ hg) hp
    case inr hg => exact absurd (hg ▸ List.mem_cons_self ..) hb
  case inr.inl => exact absurd (List.mem_cons_self ..) hs
  case inr.inr => exact he

-- Such a segment takes what the wildcards mean. Of what follows, only a dot right after nothing at
-- all matters.
theorem takes_plain_before_iff {leading : Bool} (hp : '(' ∉ s) (hb : '{' ∉ s) (hs : '[' ∉ s)
    (hpart : '/' ∉ part) (hr : piecesExpression? (readPieces s.length leading s) = some r) :
    r.Takes part v ↔ Wild s part ∧
      (leading → s.head? = some '*' ∨ s.head? = some '?' → (part ++ v).head? ≠ some '.') := by
  induction s generalizing part r leading
  case nil =>
    obtain rfl : Regex.empty = r := by simpa [readPieces, piecesExpression?] using hr
    simp [Wild]
  case cons c pieces hi =>
    rw [readPieces_plain hp hb hs] at hr
    simp only [List.mem_cons, not_or] at hp hb hs
    obtain ⟨r₁, h₁, htakes⟩ := plainPiece_expression leading c
    obtain ⟨r₂, h₂, rfl⟩ : ∃ r₂, piecesExpression? (readPieces pieces.length false pieces) =
        some r₂ ∧ .cat r₁ r₂ = r := by
      simpa [piecesExpression?, h₁, Option.bind_eq_some_iff] using hr
    have hrest {later : List Char} (hl : '/' ∉ later) : r₂.Takes later v ↔ Wild pieces later := by
      simpa using hi hp.right hb.right hs.right hl h₂
    simp only [takes_cat_iff, wild_cons, List.head?_cons, Option.some.injEq]
    constructor
    case mp =>
      rintro ⟨u, later, rfl, hu, hl⟩
      rw [List.mem_append, not_or] at hpart
      obtain ⟨hspans, hd⟩ := (htakes _ _ hpart.left).mp hu
      exact ⟨⟨u, later, rfl, hspans, (hrest hpart.right).mp hl⟩, by rwa [List.append_assoc]⟩
    case mpr =>
      rintro ⟨⟨u, later, rfl, hspans, hl⟩, hd⟩
      rw [List.mem_append, not_or] at hpart
      rw [List.append_assoc] at hd
      exact ⟨u, later, rfl, (htakes _ _ hpart.left).mpr ⟨hspans, hd⟩, (hrest hpart.right).mpr hl⟩

theorem takes_plain_iff {leading : Bool} (hp : '(' ∉ s) (hb : '{' ∉ s) (hs : '[' ∉ s)
    (hpart : '/' ∉ part) (hr : piecesExpression? (readPieces s.length leading s) = some r) :
    r.Takes part [] ↔ Wild s part ∧
      (leading → s.head? = some '*' ∨ s.head? = some '?' → ¬ IsHidden part) := by
  simpa [IsHidden] using @takes_plain_before_iff part s [] r leading hp hb hs hpart hr

-- Without sets

theorem segment_subset (h : text ∈ splitSlashes (dropDotSlash pattern)) : text ⊆ pattern := by
  refine List.Subset.trans (splitSlashes_subset h) ?_
  unfold dropDotSlash
  split
  case h_1 rest => exact List.subset_append_right ['.', '/'] rest
  case h_2      => exact List.Subset.refl _

theorem sets_eq_nil (h : '[' ∉ pattern) : sets pattern = [] := by
  simp only [sets, segments, List.flatMap_map, List.filterMap_eq_nil_iff, List.mem_flatMap]
  rintro leaf ⟨text, hm, hl⟩
  unfold Segment.ofText at hl
  split at hl
  case isTrue => simp [Segment.leaves] at hl
  case isFalse =>
    have hf := readPieces_comesFrom hl
    cases leaf
    case set => exact absurd (segment_subset hm hf) h
    all_goals rfl

-- A segment without groups and sets fits as wildcards do, but for the dot at the start.
theorem fits_iff_wild (hs : '/' ∉ text) (hd : text ≠ ['*', '*']) (hp : '(' ∉ text) (hb : '{' ∉ text)
    (hset : '[' ∉ text) (hpart : '/' ∉ part) : Fits text part ↔
      Wild text part ∧ (text.head? = some '*' ∨ text.head? = some '?' → ¬ IsHidden part) := by
  have hl := @leaves_inside text text (by simp [sets_eq_nil hset])
    (by simp [dropDotSlash_of_not_mem hs, splitSlashes_of_not_mem hs])
  have ⟨r, hr, _, hf⟩ := segment_expression hs hd hl
  rw [hf, takes_plain_iff hp hb hset hpart hr]
  simp

-- A pattern without sets matches a path exactly if the path's segments can be shared out among the
-- pattern's. A segment without groups fits as wildcards do, but for the dot at the start.
theorem accepts_iff_cuts {pattern path : String} (h : '[' ∉ pattern.toList) :
    (∃ b, accepts pattern path = .ok b ∧
      (b ↔ Cuts Fits (splitSlashes (dropDotSlash pattern.toList)) (splitSlashes path.toList))) ∧
    ∀ text ∈ splitSlashes (dropDotSlash pattern.toList), text ≠ ['*', '*'] → '(' ∉ text →
      '{' ∉ text → ∀ part, '/' ∉ part → (Fits text part ↔
        Wild text part ∧ (text.head? = some '*' ∨ text.head? = some '?' → ¬ IsHidden part)) := by
  have hs : ∀ body ∈ sets pattern.toList, IsOrdinary body := by simp [sets_eq_nil h]
  refine ⟨accepts_ordinary_iff hs, fun text hm hd hp hb part hpart => ?_⟩
  have ⟨r, hr, _, hf⟩ := segment_expression (slash_not_mem hm) hd (leaves_inside hs hm)
  rw [hf, takes_plain_iff hp hb (fun hc => h <| segment_subset hm hc) hpart hr]
  simp

-- The directories between `src` and a source file go to the globstar.
theorem cuts_sources : '[' ∉ "./src/**/*.+(js|jsx)".toList ∧
    Cuts Fits ["src".toList, "**".toList, "*.+(js|jsx)".toList]
      ["src".toList, "lib".toList, "ui".toList, "App.jsx".toList] ∧
    Wild "src".toList "src".toList := by
  have h : '[' ∉ "./src/**/*.+(js|jsx)".toList := by decide
  have ⟨⟨b, hb, hc⟩, hf⟩ := @accepts_iff_cuts _ "src/lib/ui/App.jsx" h
  have ha : accepts "./src/**/*.+(js|jsx)" "src/lib/ui/App.jsx" = .ok true := by decide +kernel
  obtain rfl : b = true := by simpa [ha, eq_comm] using hb
  have hw := hf "src".toList (by decide) (by decide) (by decide) (by decide) "src".toList
    (by decide)
  have hs : accepts "src" "src" = .ok true := by decide +kernel
  exact ⟨h, hc.mp rfl, (hw.mp hs).left⟩

end Glob

end GraphqlArtifacts
