-- UTF-8: encoding, and decoding that says where and why bytes are no text. Also the reading of line
-- ends, by which `\r\n` and a lone `\r` count as `\n`.

namespace GraphqlArtifacts

namespace Utf8

-- The byte with the value of the low bits of `n`.
def byte (n : Nat) : UInt8 :=
  UInt8.ofNat n

def encodeChar (c : Char) : List UInt8 :=
  let n := c.toNat
  if n < 0x80 then [byte n]
  else if n < 0x800 then [byte (0xC0 + n / 0x40), byte (0x80 + n % 0x40)]
  else if n < 0x10000 then
    [byte (0xE0 + n / 0x1000), byte (0x80 + n / 0x40 % 0x40), byte (0x80 + n % 0x40)]
  else
    [byte (0xF0 + n / 0x40000), byte (0x80 + n / 0x1000 % 0x40), byte (0x80 + n / 0x40 % 0x40),
      byte (0x80 + n % 0x40)]

def encodeChars (s : List Char) : List UInt8 :=
  s.flatMap encodeChar

def encode (s : String) : List UInt8 :=
  encodeChars s.toList

inductive Reason
  | invalidStart
  | invalidContinuation
  | unexpectedEnd
  deriving DecidableEq, Repr

def Reason.message : Reason → String
  | .invalidStart => "invalid start byte"
  | .invalidContinuation => "invalid continuation byte"
  | .unexpectedEnd => "unexpected end of data"

-- The bytes that are no character: the first of them, where it stands, and how many they are.
structure Error where
  reason : Reason
  first : UInt8
  position : Nat
  length : Nat
  deriving DecidableEq, Repr

def Error.message (e : Error) : String :=
  let digits := Nat.toDigits 16 e.first.toNat
  let hex := String.ofList (List.replicate (2 - digits.length) '0' ++ digits)
  let place :=
    if e.length = 1 then s!"byte 0x{hex} in position {e.position}"
    else s!"bytes in position {e.position}-{e.position + e.length - 1}"
  s!"'utf-8' codec can't decode {place}: {e.reason.message}"

def isTail (b : UInt8) : Bool :=
  0x80 ≤ b.toNat && b.toNat < 0xC0

-- Whether `second` may follow the first byte of a character.
-- A second byte below the bound would write a code point in more bytes than it needs; one above it
-- would write a surrogate, or a code point above the greatest one.
def isSecond (first second : UInt8) : Bool :=
  let low := if first = 0xE0 then 0xA0 else if first = 0xF0 then 0x90 else 0x80
  let high := if first = 0xED then 0xA0 else if first = 0xF4 then 0x90 else 0xC0
  low ≤ second.toNat && second.toNat < high

-- The six low bits of a byte.
def low6 (b : UInt8) : Nat :=
  b.toNat % 0x40

-- The characters of bytes that stand at a position.
def decodeFrom (position : Nat) : List UInt8 → Except Error (List Char)
  | [] => .ok []
  | a :: rest =>
    let n := a.toNat
    let fault (reason : Reason) (length : Nat) : Except Error (List Char) :=
      .error ⟨reason, a, position, length⟩
    if n < 0x80 then
      (decodeFrom (position + 1) rest).map (Char.ofNat n :: ·)
    else if n < 0xC2 ∨ 0xF5 ≤ n then
      fault .invalidStart 1
    else
      match rest with
      | [] => fault .unexpectedEnd 1
      | b :: rest =>
        if !isSecond a b then
          fault .invalidContinuation 1
        else if n < 0xE0 then
          (decodeFrom (position + 2) rest).map (Char.ofNat (n % 0x20 * 0x40 + low6 b) :: ·)
        else
          match rest with
          | [] => fault .unexpectedEnd 2
          | c :: rest =>
            if !isTail c then
              fault .invalidContinuation 2
            else if n < 0xF0 then
              (decodeFrom (position + 3) rest).map
                (Char.ofNat (n % 0x10 * 0x1000 + low6 b * 0x40 + low6 c) :: ·)
            else
              match rest with
              | [] => fault .unexpectedEnd 3
              | d :: rest =>
                if !isTail d then
                  fault .invalidContinuation 3
                else
                  (decodeFrom (position + 4) rest).map
                    (Char.ofNat (n % 0x8 * 0x40000 + low6 b * 0x1000 + low6 c * 0x40 + low6 d) :: ·)

def decode (bytes : List UInt8) : Except Error String :=
  (decodeFrom 0 bytes).map String.ofList

-- The text with each line end written as a line feed.
def normalizeLineEnds : List Char → List Char
  | [] => []
  | '\r' :: '\n' :: rest => '\n' :: normalizeLineEnds rest
  | c :: rest => (if c = '\r' then '\n' else c) :: normalizeLineEnds rest

-- The text that bytes hold, its line ends normalized.
def decodeText (bytes : List UInt8) : Except Error String :=
  (decodeFrom 0 bytes).map fun s => String.ofList (normalizeLineEnds s)

end Utf8

end GraphqlArtifacts
