import GraphqlArtifacts.Number.Binary64

-- The shortest decimal text of a binary64 number: the fewest digits that read back to it, and of
-- those the nearest. Exponents of the leading digit from -4 to 15 are written positionally.

namespace GraphqlArtifacts

namespace Binary64

-- A decimal number `digits * 10 ^ exponent`.
structure Decimal where
  digits : Nat
  exponent : Int
  deriving DecidableEq, Repr

-- The order of a decimal relative to `n * 2 ^ q`.
def Decimal.compareScaled (d : Decimal) (n : Nat) (q : Int) : Ordering :=
  compare (d.digits * Nat.pow 10 d.exponent.toNat * Nat.pow 2 (-q).toNat)
    (n * Nat.pow 2 q.toNat * Nat.pow 10 (-d.exponent).toNat)

-- Whether a decimal lies among the reals that round to `m * 2 ^ e`.
-- The gap below the least mantissa of 53 binary digits is half as wide as the gap above it.
def readsBack (m : Nat) (e : Int) (d : Decimal) : Bool :=
  let low := if m = Nat.pow 2 52 ∧ minExponent < e then 4 * m - 1 else 4 * m - 2
  let closed := m % 2 == 0
  let above := d.compareScaled low (e - 2)
  let below := d.compareScaled (4 * m + 2) (e - 2)
  (above == .gt || (closed && above == .eq)) && (below == .lt || (closed && below == .eq))

def digitCount (n : Nat) : Nat :=
  (Nat.toDigits 10 n).length

-- The least `k` with `num / den < 10 ^ k`, for a positive quotient.
def decimalScale (num den : Nat) : Int :=
  if den ≤ num then digitCount (num / den)
  else 1 - (digitCount ((den - 1) / num) : Int)

-- The nearer of the value's two neighbours with `n` digits, among those that read back.
def candidate? (m : Nat) (e : Int) (scale : Int) (n : Nat) : Option Decimal :=
  let grid := scale - n
  let num := m * Nat.pow 2 e.toNat * Nat.pow 10 (-grid).toNat
  let den := Nat.pow 2 (-e).toNat * Nat.pow 10 grid.toNat
  let lower : Decimal := ⟨num / den, grid⟩
  let upper : Decimal := ⟨num / den + 1, grid⟩
  match lower.digits != 0 && readsBack m e lower, readsBack m e upper with
  | true, true => some (if roundDiv num den = lower.digits then lower else upper)
  | true, false => some lower
  | false, true => some upper
  | false, false => none

def dropZeros (fuel : Nat) (d : Decimal) : Decimal :=
  match fuel with
  | 0 => d
  | fuel + 1 =>
    if d.digits % 10 = 0 ∧ d.digits ≠ 0 then dropZeros fuel ⟨d.digits / 10, d.exponent + 1⟩ else d

-- The fewest digits that read back to `m * 2 ^ e`; the exact value if there are none.
def shortest (m : Nat) (e : Int) : Decimal :=
  let scale := decimalScale (m * Nat.pow 2 e.toNat) (Nat.pow 2 (-e).toNat)
  let exact : Decimal := ⟨m * Nat.pow 2 e.toNat * Nat.pow 5 (-e).toNat, min e 0⟩
  let found := (List.range 17).findSome? fun n => candidate? m e scale (n + 1)
  let d := found.getD exact
  dropZeros (digitCount d.digits) d

def exponentText (e : Int) : String :=
  let digits := toString e.natAbs
  (if e < 0 then "-" else "+") ++ (if digits.length < 2 then "0" ++ digits else digits)

-- Positional or scientific notation, by the exponent of the leading digit.
def Decimal.layout (d : Decimal) : String :=
  let ds := Nat.toDigits 10 d.digits
  let lead := d.exponent + ds.length - 1
  let zeros (n : Int) : List Char := List.replicate n.toNat '0'
  if lead < -4 ∨ 16 ≤ lead then
    let fraction := match ds.tail with
      | [] => []
      | rest => '.' :: rest
    String.ofList (ds.take 1 ++ fraction) ++ "e" ++ exponentText lead
  else if lead < 0 then
    String.ofList ('0' :: '.' :: zeros (-lead - 1) ++ ds)
  else if 0 ≤ d.exponent then
    String.ofList (ds ++ zeros d.exponent) ++ ".0"
  else
    let point := (lead + 1).toNat
    String.ofList (ds.take point ++ '.' :: ds.drop point)

-- The text of a number: its shortest decimal, with a sign.
def text : Binary64 → String
  | .finite s m e =>
    (if s then "-" else "") ++ (if m = 0 then "0.0" else (shortest m e).layout)
  | .infinite s => if s then "-inf" else "inf"
  | .nan => "nan"

end Binary64

end GraphqlArtifacts
