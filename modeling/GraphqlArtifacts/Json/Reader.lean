import GraphqlArtifacts.Data.Basic

-- Reading JSON documents. A fault says what was expected and where: the position is kept as the
-- part of the text that starts there, and shown as line, column and offset.

namespace GraphqlArtifacts

namespace Json

inductive Cause
  | expectingValue
  | expectingName
  | expectingColon
  | expectingComma
  | extraData
  | unterminatedString
  | controlCharacter
  | invalidEscape
  | invalidUnicodeEscape
  | byteOrderMark
  deriving DecidableEq, Repr

def Cause.message : Cause → String
  | .expectingValue => "Expecting value"
  | .expectingName => "Expecting property name enclosed in double quotes"
  | .expectingColon => "Expecting ':' delimiter"
  | .expectingComma => "Expecting ',' delimiter"
  | .extraData => "Extra data"
  | .unterminatedString => "Unterminated string starting at"
  | .controlCharacter => "Invalid control character at"
  | .invalidEscape => "Invalid \\escape"
  | .invalidUnicodeEscape => "Invalid \\uXXXX escape"
  | .byteOrderMark => "Unexpected UTF-8 BOM (decode using utf-8-sig)"

-- What is wrong, and the rest of the text from where it is wrong.
structure Fault where
  cause : Cause
  rest : List Char

-- A fault with its offset from the start of the text, its line and its column in it.
structure Error where
  cause : Cause
  line : Nat
  column : Nat
  offset : Nat
  deriving DecidableEq, Repr

def Error.message (e : Error) : String :=
  s!"{e.cause.message}: line {e.line} column {e.column} (char {e.offset})"

def Fault.locate (text : List Char) (f : Fault) : Error :=
  let before := text.take (text.length - f.rest.length)
  { cause := f.cause
    line := before.count '\n' + 1
    column := (before.reverse.takeWhile (· != '\n')).length + 1
    offset := before.length }

-- What a reading step leaves: a value and the rest of the text.
abbrev Step (α : Type) := Except Fault (α × List Char)

def isSpace (c : Char) : Bool :=
  c == ' ' || c == '\t' || c == '\n' || c == '\r'

def skipSpace (s : List Char) : List Char :=
  s.dropWhile isSpace

def simpleEscape? : Char → Option Char
  | '"' => some '"'
  | '\\' => some '\\'
  | '/' => some '/'
  | 'b' => some '\x08'
  | 'f' => some '\x0c'
  | 'n' => some '\n'
  | 'r' => some '\r'
  | 't' => some '\t'
  | _ => none

def hexDigit? (c : Char) : Option Nat :=
  if c.isDigit then some (c.toNat - '0'.toNat)
  else if 'a' ≤ c ∧ c ≤ 'f' then some (c.toNat - 'a'.toNat + 10)
  else if 'A' ≤ c ∧ c ≤ 'F' then some (c.toNat - 'A'.toNat + 10)
  else none

def hexValue? (ds : List Char) : Option Nat :=
  ds.foldlM (fun n c => (hexDigit? c).map (16 * n + ·)) 0

-- The values up to the closing quote of a string that starts at `opening`.
-- The values of a string are code points, and 16-bit units where it has `\u` escapes. The text has
-- to go on after such an escape.
def stringValues (opening : List Char) : List Char → Step (List Nat)
  | [] => .error ⟨.unterminatedString, opening⟩
  | '"' :: rest => .ok ([], rest)
  | ['\\'] => .error ⟨.unterminatedString, opening⟩
  | '\\' :: 'u' :: a :: b :: c :: d :: e :: rest =>
    match hexValue? [a, b, c, d] with
    | some n => (stringValues opening (e :: rest)).map fun (ns, r) => (n :: ns, r)
    | none => .error ⟨.invalidUnicodeEscape, 'u' :: a :: b :: c :: d :: e :: rest⟩
  | '\\' :: c :: rest =>
    if c = 'u' then
      .error ⟨.invalidUnicodeEscape, c :: rest⟩
    else
      match simpleEscape? c with
      | some e => (stringValues opening rest).map fun (ns, r) => (e.toNat :: ns, r)
      | none => .error ⟨.invalidEscape, '\\' :: c :: rest⟩
  | c :: rest =>
    if c.toNat < 0x20 then .error ⟨.controlCharacter, c :: rest⟩
    else (stringValues opening rest).map fun (ns, r) => (c.toNat :: ns, r)

def isHighSurrogate (n : Nat) : Bool :=
  0xD800 ≤ n && n ≤ 0xDBFF

def isLowSurrogate (n : Nat) : Bool :=
  0xDC00 ≤ n && n ≤ 0xDFFF

-- A value as a character; a surrogate that stands alone becomes the replacement character.
def charOfValue (n : Nat) : Char :=
  if isHighSurrogate n || isLowSurrogate n then '\ufffd' else Char.ofNat n

-- The characters of a string's values: two surrogates in a row are one character.
def charsOfValues : List Nat → List Char
  | [] => []
  | [n] => [charOfValue n]
  | n :: m :: rest =>
    if isHighSurrogate n && isLowSurrogate m then
      Char.ofNat (0x10000 + (n - 0xD800) * 0x400 + (m - 0xDC00)) :: charsOfValues rest
    else
      charOfValue n :: charsOfValues (m :: rest)

-- A string after its opening quote.
def readString (s : List Char) : Step String :=
  (stringValues ('"' :: s) s).map fun (ns, rest) => (String.ofList (charsOfValues ns), rest)

def digitsValue (ds : List Char) : Nat :=
  ds.foldl (fun n c => 10 * n + (c.toNat - '0'.toNat)) 0

-- The digits of an integer: none of several starts with a zero.
def integerDigits : List Char → List Char × List Char
  | '0' :: rest => (['0'], rest)
  | s => s.span Char.isDigit

-- The digits after a point, if a digit follows it.
def fractionDigits : List Char → Option (List Char × List Char)
  | '.' :: d :: rest => if d.isDigit then some ((d :: rest).span Char.isDigit) else none
  | _ => none

-- An exponent, if its mark is followed by digits.
def exponentPart : List Char → Option (Int × List Char)
  | e :: rest =>
    if e = 'e' ∨ e = 'E' then
      let (negative, digits) := match rest with
        | '-' :: r => (true, r)
        | '+' :: r => (false, r)
        | r => (false, r)
      match digits.span Char.isDigit with
      | ([], _) => none
      | (ds, r) => some (if negative then -(digitsValue ds : Int) else digitsValue ds, r)
    else
      none
  | [] => none

-- The number that starts after an optional sign.
def readNumber (start : List Char) (negative : Bool) (s : List Char) : Step Data :=
  match integerDigits s with
  | ([], _) => .error ⟨.expectingValue, start⟩
  | (whole, rest) =>
    let fraction := fractionDigits rest
    let (fractionDs, rest) := fraction.getD ([], rest)
    let exponent := exponentPart rest
    let (e, rest) := exponent.getD (0, rest)
    let magnitude := digitsValue (whole ++ fractionDs)
    if fraction.isNone && exponent.isNone then
      .ok (.int (if negative then -(magnitude : Int) else magnitude), rest)
    else
      .ok (.float (Binary64.ofDecimal negative magnitude (e - fractionDs.length)), rest)

-- The rest of the text after a word that it starts with.
def afterWord? (word : String) (s : List Char) : Option (List Char) :=
  if word.toList.isPrefixOf s then some (s.drop word.length) else none

-- The values that are written as words.
def wordValues : List (String × Data) :=
  [("null", .null), ("true", .bool true), ("false", .bool false), ("NaN", .float .nan),
    ("Infinity", .float (.infinite false)), ("-Infinity", .float (.infinite true))]

-- A value without parts other than a string.
def readScalar (s : List Char) : Step Data :=
  match wordValues.findSome? fun (word, d) => (afterWord? word s).map fun rest => (d, rest) with
  | some step => .ok step
  | none =>
    match s with
    | '-' :: rest => readNumber s true rest
    | _ => readNumber s false s

mutual

-- The value that the text starts with. The fuel bounds the number of values.
def readValue : Nat → List Char → Step Data
  | 0, s => .error ⟨.expectingValue, s⟩
  | fuel + 1, s =>
    match s with
    | '"' :: rest => (readString rest).map fun (text, r) => (.text text, r)
    | '{' :: rest =>
      match skipSpace rest with
      | '}' :: r => .ok (.table [], r)
      | r => (readMembers fuel [] r).map fun (entries, r) => (.table entries, r)
    | '[' :: rest =>
      match skipSpace rest with
      | ']' :: r => .ok (.list [], r)
      | r => (readItems fuel r).map fun (items, r) => (.list items, r)
    | s => readScalar s

-- The items of a list up to its end.
def readItems : Nat → List Char → Except Fault (List Data × List Char)
  | 0, s => .error ⟨.expectingValue, s⟩
  | fuel + 1, s => do
    let (d, rest) ← readValue fuel s
    match skipSpace rest with
    | ']' :: r => .ok ([d], r)
    | ',' :: r =>
      let (items, r) ← readItems fuel (skipSpace r)
      .ok (d :: items, r)
    | r => .error ⟨.expectingComma, r⟩

-- The members of a table up to its end, added to those already read.
def readMembers : Nat → List (String × Data) → List Char →
    Except Fault (List (String × Data) × List Char)
  | 0, _, s => .error ⟨.expectingName, s⟩
  | fuel + 1, entries, s =>
    match s with
    | '"' :: rest => do
      let (key, rest) ← readString rest
      match skipSpace rest with
      | ':' :: rest =>
        let (d, rest) ← readValue fuel (skipSpace rest)
        let entries := Data.insert key d entries
        match skipSpace rest with
        | '}' :: r => .ok (entries, r)
        | ',' :: r => readMembers fuel entries (skipSpace r)
        | r => .error ⟨.expectingComma, r⟩
      | r => .error ⟨.expectingColon, r⟩
    | s => .error ⟨.expectingName, s⟩

end

def readDocument (s : List Char) : Except Fault Data :=
  match s with
  | '\ufeff' :: _ => .error ⟨.byteOrderMark, s⟩
  | s => do
    let (d, rest) ← readValue (2 * s.length + 2) (skipSpace s)
    match skipSpace rest with
    | [] => .ok d
    | r => .error ⟨.extraData, r⟩

-- The value of a JSON document.
def read (text : String) : Except Error Data :=
  (readDocument text.toList).mapError (Fault.locate text.toList)

end Json

end GraphqlArtifacts
