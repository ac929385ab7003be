-- Binary64 numbers as exact values: the rounding of a quotient to the nearest number of 53 binary
-- digits (a tie goes to the even neighbour), comparison with integers, and rounding to integers.

namespace GraphqlArtifacts

-- A binary64 number. A finite one is `± mantissa * 2 ^ exponent`.
inductive Binary64
  | finite (negative : Bool) (mantissa : Nat) (exponent : Int)
  | infinite (negative : Bool)
  | nan
  deriving DecidableEq, Repr, Inhabited

namespace Binary64

-- The least exponent of a finite number.
def minExponent : Int := -1074

-- The greatest exponent of a finite number.
def maxExponent : Int := 971

def zero (negative : Bool) : Binary64 :=
  .finite negative 0 minExponent

-- The quotient rounded to the nearest integer, a tie to the even one.
def roundDiv (num den : Nat) : Nat :=
  let q := num / den
  let r := num % den
  if 2 * r < den then q
  else if den < 2 * r then q + 1
  else if q % 2 = 0 then q else q + 1

-- `num / den / 2 ^ e` rounded to the nearest integer.
def roundScaled (num den : Nat) (e : Int) : Nat :=
  roundDiv (num * Nat.pow 2 (-e).toNat) (den * Nat.pow 2 e.toNat)

-- The number nearest to `± num / den`.
-- The exponent is chosen so that the mantissa has 53 binary digits, or fewer at the least exponent.
def ofRatio (negative : Bool) (num den : Nat) : Binary64 :=
  if num = 0 then
    zero negative
  else
    let low := max minExponent ((num.log2 : Int) - den.log2 - 53)
    let isLow := num * Nat.pow 2 (-low).toNat < Nat.pow 2 53 * (den * Nat.pow 2 low.toNat)
    let e := if isLow then low else low + 1
    let m := roundScaled num den e
    let (m, e) := if m = Nat.pow 2 53 then (Nat.pow 2 52, e + 1) else (m, e)
    if maxExponent < e then .infinite negative else .finite negative m e

-- The number nearest to `± digits * 10 ^ exponent`.
def ofDecimal (negative : Bool) (digits : Nat) (exponent : Int) : Binary64 :=
  if digits = 0 then
    zero negative
  else if 400 < exponent then
    .infinite negative
  else if exponent < -400 - (digits.log2 : Int) then
    zero negative
  else
    ofRatio negative (digits * Nat.pow 10 exponent.toNat) (Nat.pow 10 (-exponent).toNat)

def ofInt (n : Int) : Binary64 :=
  ofRatio (n < 0) n.natAbs 1

-- The order of a finite number relative to `± num / den`.
def compareRatio (m : Nat) (e : Int) (num den : Nat) : Ordering :=
  compare (m * Nat.pow 2 e.toNat * den) (num * Nat.pow 2 (-e).toNat)

-- Whether a number is exactly an integer `n`.
def equalsInt (n : Int) : Binary64 → Bool
  | .finite negative m e =>
    compareRatio m e n.natAbs 1 == .eq && (n == 0 || negative == decide (n < 0))
  | _ => false

-- Equality of values: the zeros are equal and no value equals `nan`.
def equals : Binary64 → Binary64 → Bool
  | .finite s m e, .finite s' m' e' =>
    (m == 0 && m' == 0) ||
      (s == s' && m * Nat.pow 2 (e - e').toNat == m' * Nat.pow 2 (e' - e).toNat)
  | .infinite s, .infinite s' => s == s'
  | _, _ => false

def isZero : Binary64 → Bool
  | .finite _ m _ => m == 0
  | _ => false

-- The text of the nearest integer, a tie to the even one; a negative value keeps its sign.
def toIntegerText : Binary64 → String
  | .finite s m e => (if s then "-" else "") ++ toString (roundScaled m 1 (-e))
  | .infinite s => if s then "-inf" else "inf"
  | .nan => "nan"

end Binary64

end GraphqlArtifacts
