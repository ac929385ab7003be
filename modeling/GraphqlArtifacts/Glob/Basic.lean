import GraphqlArtifacts.Glob.Written

-- Matching of paths by glob patterns. A pattern stands for an expression that must match a whole
-- path; it stands for none if one of its sets has a range whose ends are reversed, or a set without
-- an end of its own swallows a bracket that is needed.

namespace GraphqlArtifacts

namespace Glob

-- The ranges of a set's body: single characters, and pairs with a hyphen between them.
def bodyRanges? : List Char → Option (List (Char × Char))
  | [] => some []
  | [c] => some [(c, c)]
  | [c, '-'] => some [(c, c), ('-', '-')]
  | first :: '-' :: last :: rest =>
    if last < first then none else (bodyRanges? rest).map ((first, last) :: ·)
  | c :: rest => (bodyRanges? rest).map ((c, c) :: ·)

def CharSet.ofBody? : List Char → Option CharSet
  | '!' :: rest => (bodyRanges? rest).map (⟨true, ·⟩)
  | '^' :: rest => (bodyRanges? rest).map (⟨true, ·⟩)
  | body => (bodyRanges? body).map (⟨false, ·⟩)

def guardExpression (guarded : Bool) : Regex :=
  if guarded then .notDot else .empty

def Quantifier.apply : Quantifier → Regex → Regex
  | .once, r => r
  | .optional, r => r.optional
  | .anyNumber, r => .star r
  | .atLeastOnce, r => r.plus

mutual

-- Whether a set that has no end of its own occurs in a piece.
def Piece.isOpen : Piece → Bool
  | .set _ body => body == ['!'] || body == ['^']
  | .group _ alternatives => anyOpenAlternative alternatives
  | _ => false

def anyOpen : List Piece → Bool
  | [] => false
  | p :: rest => p.isOpen || anyOpen rest

def anyOpenAlternative : List (List Piece) → Bool
  | [] => false
  | ps :: rest => anyOpen ps || anyOpenAlternative rest

end

def Segment.isOpen : Segment → Bool
  | .anyDepth => false
  | .pieces ps => anyOpen ps

mutual

def Piece.expression? : Piece → Option Regex
  | .char c => some (.char c)
  | .anyChar guarded => some (.cat (guardExpression guarded) (.one .notSlash))
  | .anyRun guarded => some (.cat (guardExpression guarded) (.star (.one .notSlash)))
  | .set guarded body =>
    (CharSet.ofBody? body).map fun set => .cat (guardExpression guarded) (.one set)
  | .group q alternatives => (expressions? alternatives).map fun rs => q.apply (.altAll rs)

def piecesExpression? : List Piece → Option Regex
  | [] => some .empty
  | p :: rest => do
    let r ← p.expression?
    let rs ← piecesExpression? rest
    return .cat r rs

def expressions? : List (List Piece) → Option (List Regex)
  | [] => some []
  | ps :: rest => do
    let r ← piecesExpression? ps
    let rs ← expressions? rest
    return r :: rs

end

-- Any number of directories, none of them hidden, each with its slash.
def anyDirectories : Regex :=
  .star (.cat .notDot (.cat (Regex.plus (.one .notSlash)) (.char '/')))

-- A path none of whose segments is hidden.
def anyPath : Regex :=
  .cat .notDot (.cat (.star (.one .notSlash))
    (.star (.cat (.char '/') (.cat .notDot (.star (.one .notSlash))))))

def segmentsExpression? : List Segment → Option Regex
  | [] => some .empty
  | [.anyDepth] => some anyPath
  | [.pieces ps] => piecesExpression? ps
  | .anyDepth :: rest => (segmentsExpression? rest).map (.cat anyDirectories)
  | .pieces ps :: rest => do
    let r ← piecesExpression? ps
    let rs ← segmentsExpression? rest
    return .cat r (.cat (.char '/') rs)

-- The expression that a pattern stands for.
def expression? (pattern : List Char) : Option Regex :=
  let segments := Glob.segments pattern
  if segments.any Segment.isOpen then writtenExpression? segments else segmentsExpression? segments

-- The fault of a pattern that stands for no expression.
structure InvalidPattern where
  pattern : String
  deriving DecidableEq, Repr

-- Whether a pattern matches a path.
def accepts (pattern path : String) : Except InvalidPattern Bool :=
  match expression? pattern.toList with
  | some r => .ok (r.accepts path.toList)
  | none => .error ⟨pattern⟩

end Glob

end GraphqlArtifacts
