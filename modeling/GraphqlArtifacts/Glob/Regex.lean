-- Regular expressions over characters, with an assertion that the next character is not a dot.
-- `ends` lists what an expression may leave of a text; `accepts` asks whether it can leave nothing.

namespace GraphqlArtifacts

-- A set of characters: those in one of the ranges, or, if negated, all others.
structure CharSet where
  negated : Bool
  ranges : List (Char × Char)
  deriving DecidableEq, Repr

namespace CharSet

def contains (set : CharSet) (c : Char) : Bool :=
  (set.ranges.any fun (first, last) => first ≤ c && c ≤ last) != set.negated

def only (c : Char) : CharSet :=
  ⟨false, [(c, c)]⟩

def notSlash : CharSet :=
  ⟨true, [('/', '/')]⟩

end CharSet

inductive Regex
  | empty
  | notDot
  | one (set : CharSet)
  | cat (a b : Regex)
  | alt (a b : Regex)
  | star (a : Regex)
  deriving DecidableEq, Repr

namespace Regex

def plus (a : Regex) : Regex :=
  .cat a (.star a)

def optional (a : Regex) : Regex :=
  .alt a .empty

def char (c : Char) : Regex :=
  .one (.only c)

def catAll (rs : List Regex) : Regex :=
  rs.foldr .cat .empty

-- The alternative of a list that is not empty; of the empty list, the empty text.
def altAll : List Regex → Regex
  | [] => .empty
  | [r] => r
  | r :: rest => .alt r (altAll rest)

-- What any number of steps leaves, from texts found in the latest round and in all rounds.
-- Each round adds what one more repetition leaves of the latest texts. A repetition that takes
-- nothing adds nothing, so there are no more rounds than characters.
def closure (step : List Char → List (List Char)) :
    Nat → List (List Char) → List (List Char) → List (List Char)
  | 0, _, found => found
  | rounds + 1, latest, found =>
    match ((latest.flatMap step).eraseDups).filter fun t => !found.contains t with
    | [] => found
    | new => closure step rounds new (found ++ new)

-- What is left of a text after a part at its start that an expression matches.
def ends : Regex → List Char → List (List Char)
  | .empty, s => [s]
  | .notDot, s =>
    match s with
    | '.' :: _ => []
    | s => [s]
  | .one set, s =>
    match s with
    | [] => []
    | c :: rest => if set.contains c then [rest] else []
  | .cat a b, s => ((ends a s).flatMap (ends b)).eraseDups
  | .alt a b, s => (ends a s ++ ends b s).eraseDups
  | .star a, s => closure (ends a) s.length [s] [s]

-- Whether an expression matches the whole of a text.
def accepts (r : Regex) (s : List Char) : Bool :=
  (r.ends s).contains []

end Regex

end GraphqlArtifacts
