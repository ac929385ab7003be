import GraphqlArtifacts.Proofs.Glob.Braces

-- Groups that occur at least once. With its body the guard against a leading dot is repeated, so it
-- refuses dots in the middle of a segment, too.

namespace GraphqlArtifacts.Glob

open Regex

def grouping : List Char :=
  ['/', '[', ']', '(', ')', '{', '}', '|']

-- A text that is a single alternative of a group. Wildcards may stand in it.
def IsUngrouped (s : List Char) : Prop :=
  ∀ c ∈ s, c ∉ grouping

instance : DecidablePred IsUngrouped :=
  fun s => List.decidableBAll (· ∉ grouping) s

-- The pattern for one or more occurrences of another one.
def repeating (body : List Char) : List Char :=
  '+' :: '(' :: (body ++ [')'])

-- A text is put together of one or more parts.
def IsJoined (first later : List Char → Prop) (s : List Char) : Prop :=
  ∃ (part : List Char) (parts : List (List Char)),
    s = part ++ parts.flatten ∧ first part ∧ ∀ part ∈ parts, later part

-- The pattern starts with a wildcard, and so with the guard against a leading dot.
def StartsWild (s : List Char) : Prop :=
  s.head? = some '*' ∨ s.head? = some '?'

variable {body s u v before rest part : List Char} {c : Char} {parts : List (List Char)} {r : Regex}
  {first later later' : List Char → Prop}

theorem IsUngrouped.not_mem (h : IsUngrouped s) (hc : c ∈ grouping) : c ∉ s :=
  fun hm => h c hm hc

theorem IsUngrouped.isUncut (h : IsUngrouped s) : IsUncut '|' s := by
  intro c hm
  have hc := h c hm
  simp only [grouping, List.mem_cons, not_or] at hc
  simp [depthAfter, hc]

theorem IsJoined.single (h : first s) : IsJoined first later s :=
  ⟨s, [], by simp, h, by simp⟩

theorem not_mem_part {part' : List Char} (h : c ∉ part ++ parts.flatten)
    (hm : part' ∈ part :: parts) : c ∉ part' :=
  fun hc => h <| List.mem_flatten_of_mem (L := part :: parts) hm hc

theorem IsJoined.mono (h : IsJoined first later s) (hs : c ∉ s)
    (hl : ∀ part, c ∉ part → later part → later' part) : IsJoined first later' s := by
  obtain ⟨part, parts, rfl, hf, hp⟩ := h
  exact ⟨part, parts, rfl, hf, fun part hm =>
    hl part (not_mem_part hs <| List.mem_cons_of_mem _ hm) (hp part hm)⟩

-- Dots at the start

theorem not_isHidden_of_append (h : ¬ IsHidden (u ++ v)) : ¬ IsHidden u := by
  cases u
  case nil  => simp [IsHidden]
  case cons => exact h

theorem not_isHidden_append (hu : ¬ IsHidden u) (hv : ¬ IsHidden v) : ¬ IsHidden (u ++ v) := by
  cases u
  case nil  => exact hv
  case cons => exact hu

theorem not_isHidden_flatten (h : ∀ part ∈ parts, ¬ IsHidden part) : ¬ IsHidden parts.flatten := by
  induction parts
  case nil => simp [IsHidden]
  case cons part parts hi =>
    rw [List.forall_mem_cons] at h
    exact not_isHidden_append h.left (hi h.right)

-- What wildcards take

theorem wild_self (body : List Char) : Wild body body := by
  induction body
  case nil => rfl
  case cons c rest hi =>
    refine wild_cons.mpr ⟨[c], rest, rfl, ?_, hi⟩
    unfold Spans
    split
    · trivial
    · split <;> simp

theorem wild_append (h : Wild (before ++ rest) s) : ∃ u v, s = u ++ v ∧ Wild rest v := by
  induction before generalizing s
  case nil => exact ⟨[], s, rfl, h⟩
  case cons c before hi =>
    obtain ⟨u, _, rfl, _, h⟩ := wild_cons.mp h
    obtain ⟨u', v, rfl, h'⟩ := hi h
    exact ⟨u ++ u', v, by simp, h'⟩

-- A pattern with a `*` takes all that starts with one text that it takes and ends with another: the
-- `*` takes what is between.
theorem wild_between (hstar : '*' ∈ rest) (hu : Wild rest u) (hv : Wild (before ++ rest) v) :
    Wild rest (u ++ v) := by
  induction rest generalizing before u
  case nil => cases hstar
  case cons c rest hi =>
    by_cases hc : c = '*'
    case pos =>
      obtain ⟨v, _, rfl, h⟩ := wild_append hv
      obtain ⟨run, later, rfl, _, hl⟩ := wild_cons.mp h
      exact wild_cons.mpr ⟨u ++ (v ++ run), later, by simp, by simp [Spans, hc], hl⟩
    case neg =>
      obtain ⟨run, later, rfl, hs, hl⟩ := wild_cons.mp hu
      have hm : '*' ∈ rest := (List.mem_cons.mp hstar).resolve_left (Ne.symm hc)
      have hv : Wild ((before ++ [c]) ++ rest) v := by simpa using hv
      exact wild_cons.mpr ⟨run, later ++ v, by simp, hs, hi hm hl hv⟩

theorem wild_flatten (hstar : '*' ∈ body) (hu : Wild body u) (hp : ∀ part ∈ parts, Wild body part) :
    Wild body (u ++ parts.flatten) := by
  induction parts generalizing u
  case nil => simpa using hu
  case cons part parts hi =>
    rw [List.forall_mem_cons] at hp
    have hpart : Wild ([] ++ body) part := hp.left
    rw [List.flatten_cons, ← List.append_assoc]
    exact hi (wild_between hstar hu hpart) hp.right

theorem wild_length (hstar : '*' ∉ body) (hu : Wild body u) : u.length = body.length := by
  induction body generalizing u
  case nil =>
    obtain rfl : u = [] := hu
    rfl
  case cons c rest hi =>
    simp only [List.mem_cons, not_or] at hstar
    obtain ⟨u, later, rfl, hs, hl⟩ := wild_cons.mp hu
    have hone : u.length = 1 := by
      simp only [Spans, Ne.symm hstar.left, if_false] at hs
      split at hs
      · exact hs
      · simp [hs]
    simp [hone, hi hstar.right hl, Nat.add_comm]

theorem wild_ne_nil (hm : c ∈ body) (hc : c ≠ '*') (hu : Wild body u) : u ≠ [] := by
  induction body generalizing u
  case nil => cases hm
  case cons d rest hi =>
    obtain ⟨u, later, rfl, hs, hl⟩ := wild_cons.mp hu
    cases hm
    case tail hm => exact List.append_ne_nil_of_right_ne_nil _ <| hi hm hl
    case head =>
      refine List.append_ne_nil_of_left_ne_nil ?_ _
      rintro rfl
      simp [Spans, hc] at hs

theorem wild_of_stars (h : ∀ c ∈ body, c = '*') (hn : body ≠ [] ∨ u = []) : Wild body u := by
  induction body generalizing u
  case nil => exact hn.resolve_left (by simp)
  case cons c rest hi =>
    rw [List.forall_mem_cons] at h
    exact wild_cons.mpr ⟨u, [], by simp, by simp [Spans, h.left], hi h.right (.inr rfl)⟩

-- What a body takes by itself, and repeated

-- Without groups and sets a pattern means what its wildcards mean, but for the dot at the start.
theorem fits_ungrouped_iff (h : IsUngrouped body) (hs : '/' ∉ s) :
    Fits body s ↔ Wild body s ∧ (StartsWild body → ¬ IsHidden s) := by
  by_cases hd : body = ['*', '*']
  case neg =>
    exact fits_iff_wild (h.not_mem (by decide)) hd (h.not_mem (by decide)) (h.not_mem (by decide))
      (h.not_mem (by decide)) hs
  case pos =>
    subst hd
    have hsets : ∀ body ∈ sets (String.ofList ['*', '*']).toList, IsOrdinary body := by
      rw [sets_eq_nil (by decide)]
      simp
    have ⟨b, hb, hcuts⟩ := @accepts_ordinary_iff _ (String.ofList s) hsets
    have hpattern : splitSlashes (dropDotSlash (String.ofList ['*', '*']).toList) =
        [['*', '*']] := by decide
    rw [hpattern, String.toList_ofList, splitSlashes_of_not_mem hs, cuts_last] at hcuts
    have hall : Wild ['*', '*'] s := wild_of_stars (by simp) (by simp)
    simp [Fits, hb, hcuts, hall, StartsWild]

theorem readPieces_repeating (h : IsUngrouped body) :
    readPieces (repeating body).length true (repeating body) =
      [.group .atLeastOnce [plainPieces true body]] := by
  have hclosing : splitClosing '(' ')' 0 (body ++ [')']) = some (body, []) :=
    splitClosing_of_not_mem (by decide) (h.not_mem (by decide)) (h.not_mem (by decide))
  have hcut : splitTopLevel '|' 0 body = [body] := by
    simpa using @splitTopLevel_intercalate [body] '|' (by decide) (by simp)
      (by simpa using h.isUncut)
  have hread := @readPieces_ungrouped body (body.length + 2) true (h.not_mem (by decide))
    (h.not_mem (by decide)) (h.not_mem (by decide)) (by omega)
  simp [repeating, readPieces, Quantifier.ofSign?, hclosing, hcut, hread]

theorem not_mem_repeating (h : IsUngrouped body) (hc : c = '/' ∨ c = '[') :
    c ∉ repeating body := by
  have hm : c ∈ grouping ∧ c ≠ '+' ∧ c ≠ '(' ∧ c ≠ ')' := by
    obtain rfl | rfl := hc <;> decide
  simp [repeating, h.not_mem hm.left, hm]

section

variable (htakes : ∀ u v, '/' ∉ u →
  (r.Takes u v ↔ Wild body u ∧ (StartsWild body → ¬ IsHidden (u ++ v))))

include htakes

theorem takes_star_parts (h : IsUngrouped body) (hs : '/' ∉ s) (ht : Takes (.star r) s []) :
    ∃ parts : List (List Char), s = parts.flatten ∧ ∀ part ∈ parts, Fits body part := by
  revert hs
  refine ht.star_induction (P := fun s => '/' ∉ s → ∃ parts : List (List Char),
    s = parts.flatten ∧ ∀ part ∈ parts, Fits body part) (fun _ => ⟨[], rfl, by simp⟩) ?_
  intro u u' hu _ hi hs
  rw [List.mem_append, not_or] at hs
  obtain ⟨parts, rfl, hp⟩ := hi hs.right
  have ⟨hw, hd⟩ := (htakes _ _ hs.left).mp hu
  have hf := (fits_ungrouped_iff h hs.left).mpr ⟨hw, fun hb => not_isHidden_of_append (hd hb)⟩
  exact ⟨u :: parts, rfl, List.forall_mem_cons.mpr ⟨hf, hp⟩⟩

-- The guard of a round looks at what the next one takes if the round takes nothing.
theorem takes_before_parts (h : IsUngrouped body) (hs : '/' ∉ s ++ parts.flatten)
    (hf : Fits body s) (hp : ∀ part ∈ parts, Fits body part) : r.Takes s parts.flatten := by
  have hguard {part : List Char} (hm : part ∈ s :: parts) :=
    (fits_ungrouped_iff h (not_mem_part hs hm)).mp <| List.forall_mem_cons.mpr ⟨hf, hp⟩ part hm
  refine (htakes _ _ (not_mem_part hs (by simp))).mpr ⟨(hguard (by simp)).left, fun hb => ?_⟩
  have hparts : ∀ part ∈ s :: parts, ¬ IsHidden part := fun part hm => (hguard hm).right hb
  exact not_isHidden_flatten hparts

theorem takes_star_flatten (h : IsUngrouped body) (hs : '/' ∉ parts.flatten)
    (hp : ∀ part ∈ parts, Fits body part) : Takes (.star r) parts.flatten [] := by
  induction parts
  case nil => exact .stop
  case cons part parts hi =>
    rw [List.forall_mem_cons] at hp
    have ht := takes_before_parts htakes h hs hp.left hp.right
    rw [List.flatten_cons, List.mem_append, not_or] at hs
    exact .more (by simpa using ht) (hi hs.right hp.right)

end

theorem fits_repeating_iff (h : IsUngrouped body) (hs : '/' ∉ s) :
    Fits (repeating body) s ↔ IsJoined (Fits body) (Fits body) s := by
  have ⟨r, hr⟩ := exists_plainPieces_expression true body
  have htakes (u v : List Char) (hu : '/' ∉ u) :
      r.Takes u v ↔ Wild body u ∧ (StartsWild body → ¬ IsHidden (u ++ v)) := by
    have hread := @readPieces_ungrouped body body.length true (h.not_mem (by decide))
      (h.not_mem (by decide)) (h.not_mem (by decide)) (Nat.le_refl _)
    have ht := takes_plain_before_iff (v := v) (h.not_mem (by decide)) (h.not_mem (by decide))
      (h.not_mem (by decide)) hu (hread.symm ▸ hr)
    rw [ht]
    simp [StartsWild, IsHidden]
  rw [fits_iff_takes (not_mem_repeating h (by simp)) (by simp [repeating])
    (not_mem_repeating h (by simp)), readPieces_repeating h]
  have hplus : PiecesTake [.group .atLeastOnce [plainPieces true body]] s [] ↔
      ∃ u u', s = u ++ u' ∧ r.Takes u u' ∧ Takes (.star r) u' [] := by
    simp [PiecesTake, piecesExpression?, Piece.expression?, expressions?, hr, Quantifier.apply,
      altAll, Regex.plus, takes_cat_iff]
  rw [hplus]
  constructor
  case mp =>
    rintro ⟨u, u', rfl, hu, ht⟩
    rw [List.mem_append, not_or] at hs
    obtain ⟨parts, rfl, hp⟩ := takes_star_parts htakes h hs.right ht
    obtain ⟨hw, hd⟩ := (htakes _ _ hs.left).mp hu
    exact ⟨u, parts, rfl, (fits_ungrouped_iff h hs.left).mpr
      ⟨hw, fun hb => not_isHidden_of_append (hd hb)⟩, hp⟩
  case mpr =>
    rintro ⟨part, parts, rfl, hf, hp⟩
    have hno := hs
    rw [List.mem_append, not_or] at hno
    exact ⟨part, _, rfl, takes_before_parts htakes h hs hf hp,
      takes_star_flatten htakes h hno.right hp⟩

-- The law of repetition

theorem wild_of_fits (h : IsUngrouped body) (hs : '/' ∉ s) (hf : Fits body s) : Wild body s :=
  ((fits_ungrouped_iff h hs).mp hf).left

theorem not_isHidden_of_fits (h : IsUngrouped body) (hw : StartsWild body) (hs : '/' ∉ s)
    (hf : Fits body s) : ¬ IsHidden s :=
  ((fits_ungrouped_iff h hs).mp hf).right hw

-- Where the later parts need no guard, a guard of the first part is one of the whole text.
theorem joined_fits (h : IsUngrouped body) (hs : '/' ∉ s)
    (hb : StartsWild body → '*' ∈ body ∧ ∃ c ∈ body, c ≠ '*')
    (hj : IsJoined (Fits body) (Wild body) s) : IsJoined (Fits body) (Fits body) s := by
  by_cases hw : StartsWild body
  case neg =>
    refine hj.mono hs fun part hno hp => ?_
    exact (fits_ungrouped_iff h hno).mpr ⟨hp, fun hw' => absurd hw' hw⟩
  case pos =>
    have ⟨hstar, c, hm, hc⟩ := hb hw
    obtain ⟨part, parts, rfl, hf, hp⟩ := hj
    have hno := not_mem_part hs (List.mem_cons_self ..)
    have hpart := wild_of_fits h hno hf
    have hd : ¬ IsHidden (part ++ parts.flatten) := by
      have hfirst := not_isHidden_of_fits h hw hno hf
      obtain ⟨d, part, rfl⟩ := List.exists_cons_of_ne_nil <| wild_ne_nil hm hc hpart
      exact hfirst
    exact .single <| (fits_ungrouped_iff h hs).mpr ⟨wild_flatten hstar hpart hp, fun _ => hd⟩

-- Without a `*` all parts are as long as the body, so that a part with a dot at its start is found.
theorem not_joined_of_question {rest : List Char} (h : IsUngrouped ('?' :: rest))
    (hstar : '*' ∉ '?' :: rest) : ∃ s, '/' ∉ s ∧
      IsJoined (Fits ('?' :: rest)) (Wild ('?' :: rest)) s ∧
      ¬ IsJoined (Fits ('?' :: rest)) (Fits ('?' :: rest)) s := by
  have hno : '/' ∉ '?' :: rest := h.not_mem (by decide)
  have hrest : '/' ∉ '.' :: rest := by simpa using hno
  have hjoined : '/' ∉ ('?' :: rest) ++ '.' :: rest := by simpa using hrest
  refine ⟨('?' :: rest) ++ '.' :: rest, hjoined, ?_, ?_⟩
  case refine_1 =>
    have hfirst := (fits_ungrouped_iff h hno).mpr ⟨wild_self _, fun _ => by simp [IsHidden]⟩
    have hlater : Wild ('?' :: rest) ('.' :: rest) := ⟨'.', rest, rfl, wild_self rest⟩
    exact ⟨'?' :: rest, ['.' :: rest], by simp, hfirst, by simpa using hlater⟩
  case refine_2 =>
    rintro ⟨part, parts, hs, hf, hp⟩
    rw [hs] at hjoined
    have hlength := wild_length hstar <| wild_of_fits h (not_mem_part hjoined (by simp)) hf
    obtain ⟨_, hl⟩ := List.append_inj hs hlength.symm
    have hd := not_isHidden_flatten fun part' hm => not_isHidden_of_fits h (.inr rfl)
      (not_mem_part hjoined <| List.mem_cons_of_mem _ hm) (hp part' hm)
    exact hd (hl ▸ rfl)

-- A body of stars takes nothing and a dot, but not the dot by itself.
theorem not_joined_of_stars (h : IsUngrouped body) (hw : StartsWild body)
    (hstars : ∀ c ∈ body, c = '*') : IsJoined (Fits body) (Wild body) ['.'] ∧
      ¬ IsJoined (Fits body) (Fits body) ['.'] := by
  have hne : body ≠ [] := by
    rintro rfl
    simp [StartsWild] at hw
  constructor
  case left =>
    have hfirst := (fits_ungrouped_iff (s := []) h (by simp)).mpr
      ⟨wild_of_stars hstars (.inr rfl), fun _ => by simp [IsHidden]⟩
    exact ⟨[], [['.']], rfl, hfirst, by simpa using wild_of_stars hstars (.inl hne)⟩
  case right =>
    rintro ⟨part, parts, hs, hf, hp⟩
    have hno : '/' ∉ part ++ parts.flatten := hs ▸ by simp
    have hparts : ∀ part' ∈ part :: parts, ¬ IsHidden part' := fun part' hm =>
      not_isHidden_of_fits h hw (not_mem_part hno hm) <| List.forall_mem_cons.mpr ⟨hf, hp⟩ part' hm
    have hd := not_isHidden_flatten hparts
    rw [List.flatten_cons, ← hs] at hd
    exact hd rfl

-- A group that occurs at least once takes the texts put together of one or more parts that its body
-- matches. The guard counts for each part. That makes no difference to texts whose later parts may
-- start with a dot exactly if the body has no guard, or a `*` and something else.
theorem repeating_iff (h : IsUngrouped body) :
    (∀ s, '/' ∉ s → (∃ b, accepts (String.ofList (repeating body)) (String.ofList s) = .ok b) ∧
      (Fits (repeating body) s ↔ IsJoined (Fits body) (Fits body) s)) ∧
    ((∀ s, '/' ∉ s → (Fits (repeating body) s ↔ IsJoined (Fits body) (Wild body) s)) ↔
      (StartsWild body → '*' ∈ body ∧ ∃ c ∈ body, c ≠ '*')) := by
  refine ⟨fun s hs => ⟨?_, fits_repeating_iff h hs⟩, fun hlaw hw => ?_, fun hb s hs => ?_⟩
  case refine_1 =>
    have hset : '[' ∉ (String.ofList (repeating body)).toList := by
      simpa using not_mem_repeating h (.inr rfl)
    have hsets : ∀ set ∈ sets (String.ofList (repeating body)).toList, IsOrdinary set := by
      rw [sets_eq_nil hset]
      simp
    exact (@accepts_ordinary_iff _ (String.ofList s) hsets).imp fun _ hb => hb.left
  case refine_2 =>
    have hjoined {s : List Char} (hs : '/' ∉ s) :=
      (hlaw s hs).symm.trans (fits_repeating_iff h hs)
    refine ⟨by_contra fun hstar => ?_, by_contra fun hstars => ?_⟩
    case refine_1 =>
      obtain ⟨rest, rfl⟩ : ∃ rest, body = '?' :: rest := by
        cases hw
        case inl hw => exact absurd (List.mem_of_head? hw) hstar
        case inr hw => exact List.head?_eq_some_iff.mp hw
      have ⟨s, hs, hj, hn⟩ := not_joined_of_question h hstar
      exact hn <| (hjoined hs).mp hj
    case refine_2 =>
      have ⟨hj, hn⟩ := not_joined_of_stars h hw (by simpa using hstars)
      exact hn <| (hjoined (by simp)).mp hj
  case refine_3 =>
    rw [fits_repeating_iff h hs]
    exact ⟨fun hj => hj.mono hs fun part hno => wild_of_fits h hno, joined_fits h hs hb⟩

-- The second part starts with a dot, and is a part of what the `*` takes.
theorem repeating_modules : IsUngrouped "*.js".toList ∧
    accepts "+(*.js)" "App.js.test.js" = .ok true ∧
    IsJoined (Fits "*.js".toList) (Wild "*.js".toList) "App.js.test.js".toList := by
  have h : IsUngrouped "*.js".toList := by decide
  have ha : accepts "+(*.js)" "App.js.test.js" = .ok true := by decide +kernel
  have hlaw := (repeating_iff h).right.mpr fun _ => ⟨by decide, '.', by decide, by decide⟩
  exact ⟨h, ha, (hlaw "App.js.test.js".toList (by decide)).mp ha⟩

-- A dot between two characters that the body matches is refused, though no segment starts there.
theorem repeated_guard_refuses : IsUngrouped ['?'] ∧ '/' ∉ "a.b".toList ∧
    accepts (String.ofList (repeating ['?'])) "a.b" = .ok false ∧
    IsJoined (Fits ['?']) (Wild ['?']) "a.b".toList := by
  have hfirst : accepts "?" "a" = .ok true := by decide +kernel
  refine ⟨by decide, by decide, by decide +kernel, ['a'], [['.'], ['b']], by decide, hfirst, ?_⟩
  simp [Wild]

end GraphqlArtifacts.Glob
