import GraphqlArtifacts.Text.CharClass

-- Integers as people write them: with blanks around them, a sign, digits of any script, and single
-- underscores between digits.

namespace GraphqlArtifacts

namespace Integer

-- The most digits that an integer may be written with.
def maxDigits : Nat := 4300

-- A blank at an end of an integer. The separators of records do not count as blanks.
def isMargin (c : Char) : Bool :=
  isBlank c && !(0x1C ≤ c.toNat && c.toNat ≤ 0x1F)

def trim (s : List Char) : List Char :=
  ((s.dropWhile isMargin).reverse.dropWhile isMargin).reverse

-- The values of digits, between which single underscores may stand.
def digits? : List Char → Option (List Nat)
  | [] => none
  | [c] => (decimalValue? c).map ([·])
  | c :: '_' :: rest => do return (← decimalValue? c) :: (← digits? rest)
  | c :: rest => do return (← decimalValue? c) :: (← digits? rest)

def natural? (s : List Char) : Option Nat := do
  let digits ← digits? s
  if maxDigits < digits.length then none
  return digits.foldl (fun n d => n * 10 + d) 0

-- The integer that a text stands for.
def ofText? (text : String) : Option Int :=
  match trim text.toList with
  | '-' :: rest => (natural? rest).map fun n => -(n : Int)
  | '+' :: rest => (natural? rest).map fun n => (n : Int)
  | s => (natural? s).map fun n => (n : Int)

end Integer

end GraphqlArtifacts
