-- MD5: a digest of sixteen bytes, written as hexadecimal digits.

namespace GraphqlArtifacts

namespace Md5

-- The four words that are carried from block to block.
structure State where
  a : UInt32
  b : UInt32
  c : UInt32
  d : UInt32
  deriving DecidableEq, Repr

def initial : State :=
  ⟨0x67452301, 0xEFCDAB89, 0x98BADCFE, 0x10325476⟩

-- The word that is added in each of the sixty-four steps: the digits of a sine.
def sines : List UInt32 :=
  [0xD76AA478, 0xE8C7B756, 0x242070DB, 0xC1BDCEEE, 0xF57C0FAF, 0x4787C62A,
    0xA8304613, 0xFD469501, 0x698098D8, 0x8B44F7AF, 0xFFFF5BB1, 0x895CD7BE,
    0x6B901122, 0xFD987193, 0xA679438E, 0x49B40821, 0xF61E2562, 0xC040B340,
    0x265E5A51, 0xE9B6C7AA, 0xD62F105D, 0x02441453, 0xD8A1E681, 0xE7D3FBC8,
    0x21E1CDE6, 0xC33707D6, 0xF4D50D87, 0x455A14ED, 0xA9E3E905, 0xFCEFA3F8,
    0x676F02D9, 0x8D2A4C8A, 0xFFFA3942, 0x8771F681, 0x6D9D6122, 0xFDE5380C,
    0xA4BEEA44, 0x4BDECFA9, 0xF6BB4B60, 0xBEBFBC70, 0x289B7EC6, 0xEAA127FA,
    0xD4EF3085, 0x04881D05, 0xD9D4D039, 0xE6DB99E5, 0x1FA27CF8, 0xC4AC5665,
    0xF4292244, 0x432AFF97, 0xAB9423A7, 0xFC93A039, 0x655B59C3, 0x8F0CCC92,
    0xFFEFF47D, 0x85845DD1, 0x6FA87E4F, 0xFE2CE6E0, 0xA3014314, 0x4E0811A1,
    0xF7537E82, 0xBD3AF235, 0x2AD7D2BB, 0xEB86D391]

-- How far each step rotates, by the round of sixteen steps that it is in.
def rotations (step : Nat) : UInt32 :=
  let row : List UInt32 := match step / 16 with
    | 0 => [7, 12, 17, 22]
    | 1 => [5, 9, 14, 20]
    | 2 => [4, 11, 16, 23]
    | _ => [6, 10, 15, 21]
  row.getD (step % 4) 0

-- The mixture of three words in a step, and which word of the block goes with it.
def mix (s : State) (step : Nat) : UInt32 × Nat :=
  match step / 16 with
  | 0 => ((s.b &&& s.c) ||| (s.b.complement &&& s.d), step)
  | 1 => ((s.d &&& s.b) ||| (s.d.complement &&& s.c), (5 * step + 1) % 16)
  | 2 => (s.b ^^^ s.c ^^^ s.d, (3 * step + 5) % 16)
  | _ => (s.c ^^^ (s.b ||| s.d.complement), (7 * step) % 16)

def rotateLeft (w amount : UInt32) : UInt32 :=
  (w <<< amount) ||| (w >>> (32 - amount))

def step (block : List UInt32) (s : State) (sine : UInt32 × Nat) : State :=
  let (mixed, word) := mix s sine.2
  let sum := s.a + mixed + sine.1 + block.getD word 0
  ⟨s.d, s.b + rotateLeft sum (rotations sine.2), s.b, s.c⟩

-- The state after a block of sixteen words.
def compress (s : State) (block : List UInt32) : State :=
  let t := sines.zipIdx.foldl (step block) s
  ⟨s.a + t.a, s.b + t.b, s.c + t.c, s.d + t.d⟩

-- The lowest bytes of a number, the lowest first.
def lowBytes : Nat → Nat → List UInt8
  | 0, _ => []
  | count + 1, n => UInt8.ofNat n :: lowBytes count (n / 256)

-- Bytes with a one bit, zeros and their length in bits, so that blocks are full.
def pad (bytes : List UInt8) : List UInt8 :=
  let zeros := (119 - bytes.length % 64) % 64
  bytes ++ 0x80 :: List.replicate zeros 0 ++ lowBytes 8 (8 * bytes.length)

def wordsOf : List UInt8 → List UInt32
  | a :: b :: c :: d :: rest =>
    (a.toUInt32 ||| b.toUInt32 <<< 8 ||| c.toUInt32 <<< 16 ||| d.toUInt32 <<< 24) :: wordsOf rest
  | _ => []

-- The words in blocks of sixteen. The fuel bounds their number.
def blocksOf : Nat → List UInt32 → List (List UInt32)
  | 0, _ => []
  | fuel + 1, words => if words.isEmpty then [] else words.take 16 :: blocksOf fuel (words.drop 16)

def hexByte (b : UInt8) : List Char :=
  let ds := Nat.toDigits 16 b.toNat
  List.replicate (2 - ds.length) '0' ++ ds

def digest (bytes : List UInt8) : String :=
  let words := wordsOf (pad bytes)
  let s := (blocksOf words.length words).foldl compress initial
  String.ofList ([s.a, s.b, s.c, s.d].flatMap fun w => (lowBytes 4 w.toNat).flatMap hexByte)

end Md5

end GraphqlArtifacts
