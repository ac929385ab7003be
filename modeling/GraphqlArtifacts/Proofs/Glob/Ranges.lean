import GraphqlArtifacts.Proofs.Glob.Filter
import GraphqlArtifacts.Proofs.Glob.Matching

namespace GraphqlArtifacts.Glob

-- Sets that can be read: none of their ranges has its ends reversed.
def AreReadable (leaves : List Piece) : Prop :=
  ∀ leaf ∈ leaves, ∀ body ∈ leaf.body?, (CharSet.ofBody? body).isSome

variable {leaves leaves' : List Piece} {leaf : Piece} {pattern : String}

theorem areReadable_append :
    AreReadable (leaves ++ leaves') ↔ AreReadable leaves ∧ AreReadable leaves' :=
  List.forall_mem_append

theorem isSome_bind_map {α β γ : Type} {a : Option α} {b : Option β} {f : α → β → γ} :
    (a.bind fun x => b.bind fun y => some (f x y)).isSome ↔ a.isSome ∧ b.isSome := by
  cases a <;> cases b <;> simp

mutual

theorem Piece.isSome_expression? : (p : Piece) →
    (p.expression?.isSome ↔ AreReadable p.leaves)
  | .char _ | .anyChar _ | .anyRun _ => by
    simp [Piece.expression?, AreReadable, Piece.leaves, Piece.body?]
  | .set _ body => by simp [Piece.expression?, AreReadable, Piece.leaves, Piece.body?]
  | .group _ alternatives => by
    simpa [Piece.expression?, Piece.leaves] using isSome_expressions? alternatives

theorem isSome_piecesExpression? : (ps : List Piece) →
    ((piecesExpression? ps).isSome ↔ AreReadable (piecesLeaves ps))
  | [] => by simp [piecesExpression?, AreReadable, piecesLeaves]
  | p :: rest => by
    rw [piecesLeaves, areReadable_append, ← p.isSome_expression?, ← isSome_piecesExpression? rest]
    exact isSome_bind_map

theorem isSome_expressions? : (alternatives : List (List Piece)) →
    ((expressions? alternatives).isSome ↔ AreReadable (alternativesLeaves alternatives))
  | [] => by simp [expressions?, AreReadable, alternativesLeaves]
  | ps :: rest => by
    rw [alternativesLeaves, areReadable_append, ← isSome_piecesExpression? ps,
      ← isSome_expressions? rest]
    exact isSome_bind_map

end

theorem isSome_segmentsExpression? (segments : List Segment) :
    (segmentsExpression? segments).isSome ↔ AreReadable (segments.flatMap Segment.leaves) := by
  fun_induction segmentsExpression? segments
  case case1 => simp [AreReadable]
  case case2 => simp [AreReadable, Segment.leaves]
  case case3 ps => simpa [Segment.leaves] using isSome_piecesExpression? ps
  case case4 rest _ hi => simpa [Segment.leaves] using hi
  case case5 ps rest _ hi =>
    rw [List.flatMap_cons, areReadable_append, ← hi]
    exact isSome_bind_map.trans <| and_congr_left' <| isSome_piecesExpression? ps

-- A pattern without open sets is faulty exactly if a range in one of its sets is reversed.
theorem compiles_iff (h : ∀ segment ∈ segments pattern.toList, ¬ segment.isOpen) :
    Compiles pattern ↔ ∀ body ∈ sets pattern.toList, (CharSet.ofBody? body).isSome := by
  have hopen : ¬ (segments pattern.toList).any Segment.isOpen := by simpa using h
  rw [Compiles, expression?, if_neg hopen, isSome_segmentsExpression?]
  simp only [sets, AreReadable, List.mem_filterMap]
  constructor
  case mp =>
    rintro hr body ⟨leaf, hm, hb⟩
    exact hr leaf hm body hb
  case mpr => exact fun hr leaf hm body hb => hr body ⟨leaf, hm, hb⟩

end GraphqlArtifacts.Glob
