import GraphqlArtifacts.Proofs.Glob.Matching

namespace GraphqlArtifacts

open Regex

namespace Glob

def Quantifier.mayBeAbsent : Quantifier → Bool
  | .optional | .anyNumber => true
  | .once | .atLeastOnce   => false

mutual

-- Whether a piece can take nothing of a text that goes on with a dot.
def Piece.passesDot : Piece → Bool
  | .char _ | .anyChar _ | .set .. => false
  | .anyRun guarded => !guarded
  | .group q alternatives =>
    q.mayBeAbsent || alternatives.isEmpty || anyAlternativePassesDot alternatives

def piecesPassDot : List Piece → Bool
  | []        => true
  | p :: rest => p.passesDot && piecesPassDot rest

def anyAlternativePassesDot : List (List Piece) → Bool
  | []         => false
  | ps :: rest => piecesPassDot ps || anyAlternativePassesDot rest

end

mutual

-- Whether a piece can take a dot before anything else.
def Piece.takesDot : Piece → Bool
  | .char c => c == '.'
  | .anyChar guarded | .anyRun guarded => !guarded
  | .set guarded body => !guarded && (CharSet.ofBody? body).any (·.contains '.')
  | .group _ alternatives => anyAlternativeTakesDot alternatives

def piecesTakeDot : List Piece → Bool
  | []        => false
  | p :: rest => p.takesDot || p.passesDot && piecesTakeDot rest

def anyAlternativeTakesDot : List (List Piece) → Bool
  | []         => false
  | ps :: rest => piecesTakeDot ps || anyAlternativeTakesDot rest

end

def Segment.takesDot : Segment → Bool
  | .anyDepth  => false
  | .pieces ps => piecesTakeDot ps

variable {p : Piece} {ps : List Piece} {alternatives : List (List Piece)} {q : Quantifier}
  {r : Regex} {rs : List Regex} {s u v text part : List Char} {c : Char}
  {texts parts : List (List Char)}

theorem quantified_takes_nil_iff :
    (q.apply r).Takes [] v ↔ q.mayBeAbsent ∨ r.Takes [] v := by
  have hplus : (Regex.cat r (.star r)).Takes [] v ↔ r.Takes [] v := by
    rw [takes_cat_iff]
    constructor
    case mp =>
      rintro ⟨u, u', hu, h, _⟩
      obtain ⟨rfl, rfl⟩ := List.append_eq_nil_iff.mp hu.symm
      exact h
    case mpr => exact fun h => ⟨[], [], rfl, h, .stop⟩
  cases q
  case once        => simp [Quantifier.apply, Quantifier.mayBeAbsent]
  case optional    => simp [Quantifier.apply, Quantifier.mayBeAbsent, Regex.optional, takes_alt_iff]
  case anyNumber   => simpa [Quantifier.apply, Quantifier.mayBeAbsent] using Takes.stop
  case atLeastOnce => simpa [Quantifier.apply, Quantifier.mayBeAbsent, Regex.plus] using hplus

theorem star_takes_dot (h : (Regex.star r).Takes ('.' :: u) v) :
    ∃ u v, r.Takes ('.' :: u) v := by
  obtain hn | ⟨u₁, u₂, hu, hne, hr, _⟩ := takes_star_iff.mp h
  case inl => cases hn
  case inr =>
    obtain ⟨c, u₁, rfl⟩ := List.exists_cons_of_ne_nil hne
    obtain ⟨rfl, _⟩ := List.cons_eq_cons.mp hu
    exact ⟨_, _, hr⟩

theorem quantified_takes_dot (h : (q.apply r).Takes ('.' :: u) v) :
    ∃ u v, r.Takes ('.' :: u) v := by
  cases q
  case once => exact ⟨_, _, h⟩
  case optional =>
    obtain h | h := takes_alt_iff.mp h
    · exact ⟨_, _, h⟩
    · simp at h
  case anyNumber => exact star_takes_dot h
  case atLeastOnce =>
    have ⟨u₁, u₂, hu, h₁, h₂⟩ := takes_cat_iff.mp h
    cases u₁
    case nil =>
      obtain rfl : '.' :: u = u₂ := hu
      exact star_takes_dot h₂
    case cons c u₁ =>
      obtain ⟨rfl, _⟩ := List.cons_eq_cons.mp hu
      exact ⟨_, _, h₁⟩

-- One round of a group is enough.
theorem quantified_takes (h : r.Takes u v) : (q.apply r).Takes u v := by
  cases q
  case once      => exact h
  case optional  => exact .left h
  case anyNumber => exact h.once
  case atLeastOnce =>
    rw [← List.append_nil u]
    exact .cat h .stop

theorem group_expression (h : (Piece.group q alternatives).expression? = some r) :
    ∃ rs, expressions? alternatives = some rs ∧ q.apply (.altAll rs) = r := by
  simpa [Piece.expression?] using h

theorem piecesExpression_cons (h : piecesExpression? (p :: ps) = some r) :
    ∃ r₁ r₂, p.expression? = some r₁ ∧ piecesExpression? ps = some r₂ ∧ .cat r₁ r₂ = r := by
  simp only [piecesExpression?, Option.bind_eq_bind, Option.bind_eq_some_iff] at h
  have ⟨r₁, h₁, r₂, h₂, h⟩ := h
  exact ⟨r₁, r₂, h₁, h₂, Option.some.inj h⟩

theorem expressions_cons (h : expressions? (ps :: alternatives) = some rs) :
    ∃ r later, piecesExpression? ps = some r ∧ expressions? alternatives = some later ∧
      r :: later = rs := by
  simp only [expressions?, Option.bind_eq_bind, Option.bind_eq_some_iff] at h
  have ⟨r, hr, later, hl, h⟩ := h
  exact ⟨r, later, hr, hl, Option.some.inj h⟩

theorem takes_nil_cat_iff {a b : Regex} :
    (Regex.cat a b).Takes [] v ↔ a.Takes [] v ∧ b.Takes [] v := by
  simp only [takes_cat_iff, List.nil_eq_append_iff]
  constructor
  case mp =>
    rintro ⟨_, _, ⟨rfl, rfl⟩, ha, hb⟩
    exact ⟨ha, hb⟩
  case mpr => exact fun ⟨ha, hb⟩ => ⟨[], [], ⟨rfl, rfl⟩, ha, hb⟩

mutual

theorem Piece.passesDot_iff : (p : Piece) → ∀ {r}, p.expression? = some r →
    (r.Takes [] ('.' :: v) ↔ p.passesDot)
  | .char c, r, h => by
    obtain rfl := Option.some.inj h
    simp [Piece.passesDot]
  | .anyChar guarded, r, h => by
    obtain rfl := Option.some.inj h
    simp [Piece.passesDot, takes_guarded_iff]
  | .anyRun guarded, r, h => by
    obtain rfl := Option.some.inj h
    simp [Piece.passesDot, takes_guarded_iff]
  | .set guarded body, r, h => by
    obtain ⟨set, _, rfl⟩ := Option.map_eq_some_iff.mp h
    simp [Piece.passesDot, takes_guarded_iff]
  | .group q alternatives, r, h => by
    obtain ⟨rs, hrs, rfl⟩ := group_expression h
    have hempty : rs = [] ↔ alternatives = [] := by
      cases alternatives
      case nil => simpa [expressions?, eq_comm] using hrs
      case cons =>
        obtain ⟨_, _, _, _, rfl⟩ := expressions_cons hrs
        simp
    simp [quantified_takes_nil_iff, takes_altAll_iff, Piece.passesDot, hempty,
      anyAlternativePassesDot_iff alternatives hrs, or_assoc]

theorem piecesPassDot_iff : (ps : List Piece) → ∀ {r}, piecesExpression? ps = some r →
    (r.Takes [] ('.' :: v) ↔ piecesPassDot ps)
  | [], r, h => by
    obtain rfl := Option.some.inj h
    simp [piecesPassDot]
  | p :: rest, r, h => by
    obtain ⟨r₁, r₂, h₁, h₂, rfl⟩ := piecesExpression_cons h
    simp [takes_nil_cat_iff, piecesPassDot, p.passesDot_iff h₁, piecesPassDot_iff rest h₂]

theorem anyAlternativePassesDot_iff : (alternatives : List (List Piece)) → ∀ {rs},
    expressions? alternatives = some rs →
      ((∃ r ∈ rs, r.Takes [] ('.' :: v)) ↔ anyAlternativePassesDot alternatives)
  | [], rs, h => by
    obtain rfl := Option.some.inj h
    simp [anyAlternativePassesDot]
  | ps :: rest, rs, h => by
    obtain ⟨r, later, hr, hl, rfl⟩ := expressions_cons h
    simp [anyAlternativePassesDot, piecesPassDot_iff ps hr, anyAlternativePassesDot_iff rest hl]

end

mutual

theorem Piece.takesDot_of_takes : (p : Piece) → ∀ {r u v}, p.expression? = some r →
    r.Takes ('.' :: u) v → p.takesDot
  | .char c, r, u, v, h, hu => by
    obtain rfl := Option.some.inj h
    obtain ⟨rfl, _⟩ := List.cons_eq_cons.mp <| takes_char_iff.mp hu
    simp [Piece.takesDot]
  | .anyChar guarded, r, u, v, h, hu => by
    obtain rfl := Option.some.inj h
    simp_all [Piece.takesDot, takes_guarded_iff]
  | .anyRun guarded, r, u, v, h, hu => by
    obtain rfl := Option.some.inj h
    simp_all [Piece.takesDot, takes_guarded_iff]
  | .set guarded body, r, u, v, h, hu => by
    obtain ⟨set, hs, rfl⟩ := Option.map_eq_some_iff.mp h
    simp_all [Piece.takesDot, takes_guarded_iff]
  | .group q alternatives, r, u, v, h, hu => by
    obtain ⟨rs, hrs, rfl⟩ := group_expression h
    have ⟨u, v, hu⟩ := quantified_takes_dot hu
    obtain ⟨_, hn⟩ | ⟨r, hr, hu⟩ := takes_altAll_iff.mp hu
    case inl => cases hn
    case inr => exact anyAlternativeTakesDot_of_takes alternatives hrs hr hu

theorem piecesTakeDot_of_takes : (ps : List Piece) → ∀ {r u v}, piecesExpression? ps = some r →
    r.Takes ('.' :: u) v → piecesTakeDot ps
  | [], r, u, v, h, hu => by
    obtain rfl := Option.some.inj h
    simp at hu
  | p :: rest, r, u, v, h, hu => by
    obtain ⟨r₁, r₂, h₁, h₂, rfl⟩ := piecesExpression_cons h
    have ⟨u₁, u₂, hu, hp, hrest⟩ := takes_cat_iff.mp hu
    simp only [piecesTakeDot, Bool.or_eq_true, Bool.and_eq_true]
    cases u₁
    case nil =>
      obtain rfl : '.' :: u = u₂ := hu
      exact .inr ⟨(p.passesDot_iff h₁).mp hp, piecesTakeDot_of_takes rest h₂ hrest⟩
    case cons c u₁ =>
      obtain ⟨rfl, _⟩ := List.cons_eq_cons.mp hu
      exact .inl <| p.takesDot_of_takes h₁ hp

theorem anyAlternativeTakesDot_of_takes : (alternatives : List (List Piece)) → ∀ {rs r u v},
    expressions? alternatives = some rs → r ∈ rs → r.Takes ('.' :: u) v →
      anyAlternativeTakesDot alternatives
  | [], rs, r, u, v, h, hr, hu => by
    obtain rfl := Option.some.inj h
    cases hr
  | ps :: rest, rs, r, u, v, h, hr, hu => by
    obtain ⟨r', later, hp, hl, rfl⟩ := expressions_cons h
    simp only [anyAlternativeTakesDot, Bool.or_eq_true]
    obtain rfl | hr := List.mem_cons.mp hr
    · exact .inl <| piecesTakeDot_of_takes ps hp hu
    · exact .inr <| anyAlternativeTakesDot_of_takes rest hl hr hu

end

mutual

-- Pieces whose sets are ordinary take some text, whatever follows.
theorem Piece.exists_takes : (p : Piece) → ∀ {r}, (∀ leaf ∈ p.leaves, leaf.IsInside) →
    p.expression? = some r → ∃ u, ∀ v, r.Takes u v
  | .char c, r, _, h => by
    obtain rfl := Option.some.inj h
    exact ⟨[c], fun v => takes_char_iff.mpr rfl⟩
  | .anyChar guarded, r, _, h => by
    obtain rfl := Option.some.inj h
    exact ⟨['a'], fun v => by simp [takes_guarded_iff, contains_notSlash]⟩
  | .anyRun guarded, r, _, h => by
    obtain rfl := Option.some.inj h
    exact ⟨['a'], fun v => by simp [takes_guarded_iff]⟩
  | .set guarded body, r, hi, h => by
    obtain ⟨set, hs, rfl⟩ := Option.map_eq_some_iff.mp h
    obtain ⟨set', hs', _, c, hc, hin⟩ : IsOrdinary body :=
      hi (.set guarded body) <| by simp [Piece.leaves]
    obtain rfl := Option.some.inj <| hs.symm.trans hs'
    exact ⟨[c], fun v => by simp [takes_guarded_iff, hc, hin]⟩
  | .group q alternatives, r, hi, h => by
    obtain ⟨rs, hrs, rfl⟩ := group_expression h
    have ⟨u, hu⟩ := exists_takes_altAll alternatives (by simpa [Piece.leaves] using hi) hrs
    exact ⟨u, fun v => quantified_takes (hu v)⟩

theorem exists_takes_pieces : (ps : List Piece) → ∀ {r},
    (∀ leaf ∈ piecesLeaves ps, leaf.IsInside) → piecesExpression? ps = some r →
      ∃ u, ∀ v, r.Takes u v
  | [], r, _, h => by
    obtain rfl := Option.some.inj h
    exact ⟨[], fun v => .empty⟩
  | p :: rest, r, hi, h => by
    obtain ⟨r₁, r₂, h₁, h₂, rfl⟩ := piecesExpression_cons h
    simp only [piecesLeaves, List.forall_mem_append] at hi
    have ⟨u₁, hu₁⟩ := p.exists_takes hi.left h₁
    have ⟨u₂, hu₂⟩ := exists_takes_pieces rest hi.right h₂
    exact ⟨u₁ ++ u₂, fun v => .cat (hu₁ _) (hu₂ v)⟩

theorem exists_takes_altAll : (alternatives : List (List Piece)) → ∀ {rs},
    (∀ leaf ∈ alternativesLeaves alternatives, leaf.IsInside) →
      expressions? alternatives = some rs → ∃ u, ∀ v, (Regex.altAll rs).Takes u v
  | [], rs, _, h => by
    obtain rfl := Option.some.inj h
    exact ⟨[], fun v => .empty⟩
  | ps :: rest, rs, hi, h => by
    obtain ⟨r, later, hp, hl, rfl⟩ := expressions_cons h
    simp only [alternativesLeaves, List.forall_mem_append] at hi
    have ⟨u, hu⟩ := exists_takes_pieces ps hi.left hp
    exact ⟨u, fun v => takes_altAll_iff.mpr <| .inr ⟨r, List.mem_cons_self .., hu v⟩⟩

end

mutual

theorem Piece.exists_takes_dot : (p : Piece) → ∀ {r}, (∀ leaf ∈ p.leaves, leaf.IsInside) →
    p.expression? = some r → p.takesDot → ∃ u, ∀ v, r.Takes ('.' :: u) v
  | .char c, r, _, h, hd => by
    obtain rfl := Option.some.inj h
    obtain rfl : c = '.' := by simpa [Piece.takesDot] using hd
    exact ⟨[], fun v => takes_char_iff.mpr rfl⟩
  | .anyChar guarded, r, _, h, hd => by
    obtain rfl := Option.some.inj h
    exact ⟨[], fun v => by simp_all [takes_guarded_iff, contains_notSlash, Piece.takesDot]⟩
  | .anyRun guarded, r, _, h, hd => by
    obtain rfl := Option.some.inj h
    exact ⟨[], fun v => by simp_all [takes_guarded_iff, Piece.takesDot]⟩
  | .set guarded body, r, hi, h, hd => by
    obtain ⟨set, hs, rfl⟩ := Option.map_eq_some_iff.mp h
    exact ⟨[], fun v => by simp_all [takes_guarded_iff, Piece.takesDot]⟩
  | .group q alternatives, r, hi, h, hd => by
    obtain ⟨rs, hrs, rfl⟩ := group_expression h
    have ⟨r, hr, u, hu⟩ :=
      exists_takes_dot_alternative alternatives (by simpa [Piece.leaves] using hi) hrs hd
    exact ⟨u, fun v => quantified_takes <| takes_altAll_iff.mpr <| .inr ⟨r, hr, hu v⟩⟩

theorem exists_takes_dot_pieces : (ps : List Piece) → ∀ {r},
    (∀ leaf ∈ piecesLeaves ps, leaf.IsInside) → piecesExpression? ps = some r →
      piecesTakeDot ps → ∃ u, ∀ v, r.Takes ('.' :: u) v
  | p :: rest, r, hi, h, hd => by
    obtain ⟨r₁, r₂, h₁, h₂, rfl⟩ := piecesExpression_cons h
    simp only [piecesLeaves, List.forall_mem_append] at hi
    simp only [piecesTakeDot, Bool.or_eq_true, Bool.and_eq_true] at hd
    obtain hd | ⟨hp, hd⟩ := hd
    case inl =>
      have ⟨u₁, hu₁⟩ := p.exists_takes_dot hi.left h₁ hd
      have ⟨u₂, hu₂⟩ := exists_takes_pieces rest hi.right h₂
      exact ⟨u₁ ++ u₂, fun v => .cat (hu₁ _) (hu₂ v)⟩
    case inr =>
      have ⟨u, hu⟩ := exists_takes_dot_pieces rest hi.right h₂ hd
      exact ⟨u, fun v => .cat ((p.passesDot_iff h₁).mpr hp) (hu v)⟩

theorem exists_takes_dot_alternative : (alternatives : List (List Piece)) → ∀ {rs},
    (∀ leaf ∈ alternativesLeaves alternatives, leaf.IsInside) →
      expressions? alternatives = some rs → anyAlternativeTakesDot alternatives →
        ∃ r ∈ rs, ∃ u, ∀ v, r.Takes ('.' :: u) v
  | ps :: rest, rs, hi, h, hd => by
    obtain ⟨r, later, hp, hl, rfl⟩ := expressions_cons h
    simp only [alternativesLeaves, List.forall_mem_append] at hi
    simp only [anyAlternativeTakesDot, Bool.or_eq_true] at hd
    obtain hd | hd := hd
    case inl => exact ⟨r, List.mem_cons_self .., exists_takes_dot_pieces ps hi.left hp hd⟩
    case inr =>
      have ⟨r', hr', hu⟩ := exists_takes_dot_alternative rest hi.right hl hd
      exact ⟨r', List.mem_cons_of_mem _ hr', hu⟩

end

-- Segments and paths

section

variable (hs : '/' ∉ text) (hd : text ≠ ['*', '*'])
  (hl : ∀ leaf ∈ (Segment.ofText text).leaves, leaf.IsInside)

include hs hd hl

theorem exists_fits : ∃ part, '/' ∉ part ∧ Fits text part := by
  have ⟨r, hr, hi, hf⟩ := segment_expression hs hd hl
  have ho : Segment.ofText text = .pieces (readPieces text.length true text) := if_neg hd
  rw [ho] at hl
  have ⟨u, hu⟩ := exists_takes_pieces _ hl hr
  exact ⟨u, hi _ _ (hu []), (hf u).mpr (hu [])⟩

-- A segment fits a hidden part of a path exactly if its pieces can take a dot first.
theorem exists_fits_hidden_iff :
    (∃ part, '/' ∉ part ∧ IsHidden part ∧ Fits text part) ↔ (Segment.ofText text).takesDot := by
  have ⟨r, hr, hi, hf⟩ := segment_expression hs hd hl
  have ho : Segment.ofText text = .pieces (readPieces text.length true text) := if_neg hd
  rw [ho] at hl ⊢
  constructor
  case mp =>
    rintro ⟨part, _, hh, hp⟩
    obtain ⟨u, rfl⟩ := List.head?_eq_some_iff.mp hh
    exact piecesTakeDot_of_takes _ hr <| (hf _).mp hp
  case mpr =>
    intro hdot
    have ⟨u, hu⟩ := exists_takes_dot_pieces _ hl hr hdot
    exact ⟨'.' :: u, hi _ _ (hu []), rfl, (hf _).mpr (hu [])⟩

end

variable {fits : List Char → List Char → Prop}

theorem cuts_hidden (h : Cuts fits texts parts) (hm : part ∈ parts) (hp : IsHidden part) :
    ∃ text ∈ texts, text ≠ ['*', '*'] ∧ fits text part := by
  induction texts generalizing parts
  case nil =>
    obtain rfl : parts = [] := h
    cases hm
  case cons text rest hi =>
    have hrest {later : List (List Char)} (hc : Cuts fits rest later) (hm : part ∈ later) :
        ∃ text' ∈ text :: rest, text' ≠ ['*', '*'] ∧ fits text' part := by
      have ⟨text', ht, hf⟩ := hi hc hm
      exact ⟨text', List.mem_cons_of_mem _ ht, hf⟩
    by_cases hd : text = ['*', '*']
    case neg =>
      obtain ⟨first, later, rfl, hf, hc⟩ := (cuts_pieces hd).mp h
      obtain rfl | hm := List.mem_cons.mp hm
      · exact ⟨text, List.mem_cons_self .., hd, hf⟩
      · exact hrest hc hm
    case pos =>
      subst hd
      by_cases hr : rest = []
      case pos =>
        subst hr
        exact absurd hp <| (cuts_last.mp h).right part hm
      case neg =>
        obtain ⟨taken, later, rfl, ht, hc⟩ := (cuts_anyDepth hr).mp h
        obtain hm | hm := List.mem_append.mp hm
        · exact absurd hp (ht part hm).right
        · exact hrest hc hm

-- Parts that fit the segments make up a path.
theorem exists_cuts {choice : List Char → List Char} (hn : texts ≠ [])
    (h : ∀ text ∈ texts, text ≠ ['*', '*'] → '/' ∉ choice text ∧ fits text (choice text)) :
    ∃ parts, Cuts fits texts parts ∧ (∀ part ∈ parts, '/' ∉ part) ∧
      ∀ text ∈ texts, text ≠ ['*', '*'] → choice text ∈ parts := by
  induction texts
  case nil => contradiction
  case cons text rest hi =>
    obtain ⟨hf, h⟩ := List.forall_mem_cons.mp h
    by_cases hr : rest = []
    case pos =>
      subst hr
      by_cases hd : text = ['*', '*']
      case pos => exact ⟨[[]], by simp [hd, Cuts, IsHidden]⟩
      case neg => exact ⟨[choice text], by simpa [Cuts, hd] using (hf hd).symm⟩
    case neg =>
      obtain ⟨later, hc, hl, hm⟩ := hi hr h
      by_cases hd : text = ['*', '*']
      case pos =>
        subst hd
        refine ⟨later, (cuts_anyDepth hr).mpr ⟨[], later, rfl, by simp, hc⟩, hl, ?_⟩
        exact List.forall_mem_cons.mpr ⟨fun hne => absurd rfl hne, hm⟩
      case neg =>
        refine ⟨choice text :: later, (cuts_pieces hd).mpr ⟨_, _, rfl, (hf hd).right, hc⟩,
          List.forall_mem_cons.mpr ⟨(hf hd).left, hl⟩, List.forall_mem_cons.mpr ⟨?_, ?_⟩⟩
        · exact fun _ => List.mem_cons_self ..
        · exact fun text hm' hne => List.mem_cons_of_mem _ <| hm text hm' hne

-- Without a dot and without groups, the first piece of a segment is guarded or another character.
theorem not_takesDot_of_plain (hdot : '.' ∉ text) (hp : '(' ∉ text) (hb : '{' ∉ text) :
    ¬ (Segment.ofText text).takesDot := by
  by_cases hd : text = ['*', '*']
  case pos => simp [hd, Segment.ofText, Segment.takesDot]
  case neg =>
    rw [Segment.ofText, if_neg hd]
    cases text
    case nil => simp [readPieces, Segment.takesDot, piecesTakeDot]
    case cons c rest =>
      obtain ⟨p, after, he, _, hcase⟩ := readPieces_cons rest.length true c rest
      rw [List.length_cons, he]
      suffices hs : p.takesDot = false ∧ p.passesDot = false by
        simp [Segment.takesDot, piecesTakeDot, hs.left, hs.right]
      simp only [List.mem_cons, not_or] at hdot hp hb
      obtain ⟨_, _, _, _, _, hg | hg⟩ | ⟨_, rfl, _⟩ | ⟨rfl, _⟩ := hcase
      case inl.inl => exact absurd hg hp.right
      case inl.inr => exact absurd hg.symm hb.left
      case inr.inl => simp [Piece.takesDot, Piece.passesDot]
      case inr.inr =>
        unfold plainPiece
        split
        case isTrue => simp [Piece.takesDot, Piece.passesDot]
        case isFalse => split <;> simp [Piece.takesDot, Piece.passesDot, Ne.symm hdot.left]

section

variable {pattern : String} (h : ∀ body ∈ sets pattern.toList, IsOrdinary body)

include h

-- Next to a hidden part that fits a segment, the other segments can have any parts that fit them.
theorem accepts_hidden (hm : text ∈ splitSlashes (dropDotSlash pattern.toList))
    (htakes : (Segment.ofText text).takesDot) : ∃ path : String,
      (∃ part ∈ splitSlashes path.toList, IsHidden part) ∧ accepts pattern path = .ok true := by
  have hd : text ≠ ['*', '*'] := by
    rintro rfl
    simp [Segment.ofText, Segment.takesDot] at htakes
  have ⟨hidden, hslash, hh, hfits⟩ :=
    (exists_fits_hidden_iff (slash_not_mem hm) hd <| leaves_inside h hm).mpr htakes
  have hchoice (text') : ∃ part, (text' ∈ splitSlashes (dropDotSlash pattern.toList) →
      text' ≠ ['*', '*'] → '/' ∉ part ∧ Fits text' part) ∧ (text' = text → IsHidden part) := by
    by_cases ht : text' = text
    case pos => exact ⟨hidden, fun _ _ => ht ▸ ⟨hslash, hfits⟩, fun _ => hh⟩
    case neg =>
      by_cases hm' : text' ∈ splitSlashes (dropDotSlash pattern.toList) ∧ text' ≠ ['*', '*']
      case pos =>
        have ⟨part, hp⟩ :=
          exists_fits (slash_not_mem hm'.left) hm'.right (leaves_inside h hm'.left)
        exact ⟨part, fun _ _ => hp, fun hc => absurd hc ht⟩
      case neg => exact ⟨[], fun hm hd => absurd ⟨hm, hd⟩ hm', fun hc => absurd hc ht⟩
  choose choice hfit hhidden using hchoice
  have ⟨parts, hc, hp, hmem⟩ := exists_cuts splitSlashes_ne_nil hfit
  have hs : splitSlashes (String.ofList (['/'].intercalate parts)).toList = parts := by
    rw [String.toList_ofList, splitSlashes_intercalate (cuts_ne_nil splitSlashes_ne_nil hc) hp]
  obtain ⟨b, hb, hiff⟩ := accepts_ordinary_iff h
  obtain rfl : b = true := hiff.mpr <| hs.symm ▸ hc
  exact ⟨_, ⟨_, hs.symm ▸ hmem text hm hd, hhidden text rfl⟩, hb⟩

-- A pattern whose sets are ordinary misses all paths with a hidden part exactly if no segment of it
-- can take a dot first. Groups apart, one without a dot is such a pattern.
theorem misses_hidden_iff :
    ((∀ path : String, (∃ part ∈ splitSlashes path.toList, IsHidden part) →
        accepts pattern path = .ok false) ↔
      ∀ segment ∈ segments pattern.toList, ¬ segment.takesDot) ∧
    ('.' ∉ dropDotSlash pattern.toList → '(' ∉ pattern.toList → '{' ∉ pattern.toList →
      ∀ segment ∈ segments pattern.toList, ¬ segment.takesDot) := by
  simp only [segments, List.forall_mem_map]
  refine ⟨⟨fun hmiss text hm htakes => ?_, ?_⟩, fun hdot hp hb text hm => ?_⟩
  case refine_1 =>
    obtain ⟨path, hpath, ha⟩ := accepts_hidden h hm htakes
    simp [hmiss path hpath] at ha
  case refine_2 =>
    rintro hmiss path ⟨part, hpart, hh⟩
    obtain ⟨b, hb, hiff⟩ := @accepts_ordinary_iff _ path h
    rw [hb, Except.ok.injEq, ← Bool.not_eq_true]
    intro ht
    obtain ⟨text, hm, hd, hf⟩ := cuts_hidden (hiff.mp ht) hpart hh
    exact hmiss text hm <| (exists_fits_hidden_iff (slash_not_mem hm) hd <| leaves_inside h hm).mp
      ⟨part, slash_not_mem hpart, hh, hf⟩
  case refine_3 =>
    exact not_takesDot_of_plain (fun hc => hdot <| splitSlashes_subset hm hc)
      (fun hc => hp <| segment_subset hm hc) (fun hc => hb <| segment_subset hm hc)

end

-- A wildcard after a group that may be absent has no guard.
theorem optional_takes_hidden : '.' ∉ dropDotSlash "?(a)*".toList ∧
    (∃ part ∈ splitSlashes ".b".toList, IsHidden part) ∧ accepts "?(a)*" ".b" = .ok true := by
  refine ⟨by decide, ⟨".b".toList, by decide, rfl⟩, by decide +kernel⟩

theorem misses_hidden_lower : (∀ body ∈ sets "**/[a-z]*".toList, IsOrdinary body) ∧
    ∀ path : String, (∃ part ∈ splitSlashes path.toList, IsHidden part) →
      accepts "**/[a-z]*" path = .ok false := by
  have hs : sets "**/[a-z]*".toList = [['a', '-', 'z']] := by decide +kernel
  have ho : ∀ body ∈ sets "**/[a-z]*".toList, IsOrdinary body := by
    rw [hs, List.forall_mem_singleton]
    exact ⟨⟨false, [('a', 'z')]⟩, rfl, by decide, 'b', by decide, by decide⟩
  have hplain := (misses_hidden_iff ho).right (by decide) (by decide) (by decide)
  exact ⟨ho, (misses_hidden_iff ho).left.mpr hplain⟩

end Glob

end GraphqlArtifacts
