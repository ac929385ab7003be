import GraphqlArtifacts.Text.Order

-- Names that may have been meant by a name that is not known: those that few edits away, nearest
-- first and then in natural order, where numbers inside names count as numbers.

namespace GraphqlArtifacts

namespace Suggestion

-- Natural order

-- The parts of a name: texts, the first perhaps empty, with runs of digits between them.
def parts : List Char → List (List Char)
  | [] => [[]]
  | c :: rest =>
    match parts rest with
    | [] => [[c]]
    | s :: later =>
      if c.isDigit then
        match s, later with
        | [], digits :: more => [] :: (c :: digits) :: more
        | s, later => [] :: [c] :: s :: later
      else
        (c :: s) :: later

def numberOf (digits : List Char) : Nat :=
  digits.foldl (fun n c => n * 10 + (c.toNat - '0'.toNat)) 0

-- The order of lists of parts. Texts and numbers alternate.
def partsBefore : Bool → List (List Char) → List (List Char) → Bool
  | _, _, [] => false
  | _, [], _ :: _ => true
  | isNumber, a :: as, b :: bs =>
    if a = b then partsBefore (!isNumber) as bs
    else if isNumber && numberOf a != numberOf b then numberOf a < numberOf b
    else charsBefore a b

def naturallyBefore (a b : String) : Bool :=
  partsBefore false (parts a.toList) (parts b.toList)

-- Distance

-- The cells of a row after its first one, which is the cell to the left. The rows above start one
-- cell and two cells further left.
def cells (a : Char) (aBefore bBefore : Option Char) (left : Nat) :
    List Char → List Nat → List Nat → List Nat
  | b :: bs, diagonal :: up :: ups, farDiagonal :: far =>
    let cost := if a = b then 0 else 1
    let cell := min (min (up + 1) (left + 1)) (diagonal + cost)
    let cell :=
      if aBefore = some b ∧ bBefore = some a then min cell (farDiagonal + 1) else cell
    cell :: cells a aBefore (some b) cell bs (up :: ups) far
  | _, _, _ => []

-- The last row of the table of distances between the starts of two texts.
def lastRow (b : List Char) (aBefore : Option Char) (i : Nat) :
    List Char → List Nat → List Nat → List Nat
  | [], row, _ => row
  | a :: as, row, above =>
    lastRow b (some a) (i + 1) as (i :: cells a aBefore none i b row (0 :: above)) row

-- The number of edits between two texts: characters added, left out, replaced, or two neighbours
-- exchanged.
def editDistance (a b : List Char) : Nat :=
  let first := List.range (b.length + 1)
  ((lastRow b none 1 a first first).getLast?).getD 0

-- The distance of a name from the one that was written. A difference in case alone is one edit.
def distance (written option : String) : Nat :=
  if written = option then 0
  else
    let a := option.toLower.toList
    let b := written.toLower.toList
    if a = b then 1
    else if a.length < b.length then editDistance b a
    else editDistance a b

-- The most edits that a name may be away.
def threshold (written : String) : Nat :=
  written.length * 2 / 5 + 1

-- The names that may have been meant.
def near (written : String) (options : List String) : List String :=
  let measured := options.eraseDups.map fun o => (distance written o, o)
  let kept := measured.filter fun (d, _) => d ≤ threshold written
  let sorted := kept.mergeSort fun (d, o) (d', o') =>
    d < d' || (d == d' && !naturallyBefore o' o)
  sorted.map (·.2)

-- The most names that are shown.
def maxShown : Nat := 5

def shown (names : List String) : String :=
  match (names.take maxShown).map fun name => s!"'{name}'" with
  | [] => ""
  | [a] => a
  | [a, b] => a ++ " or " ++ b
  | more => ", ".intercalate more.dropLast ++ ", or " ++ (more.getLast?).getD ""

-- The question at the end of a message, if there are names to show.
def didYouMean (what : String) (names : List String) : String :=
  if names.isEmpty then "" else s!" Did you mean {what}{shown names}?"

end Suggestion

end GraphqlArtifacts
