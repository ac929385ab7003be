import GraphqlArtifacts.Graphql.Token
import GraphqlArtifacts.Json.Reader

-- The tokens of a text. Blanks, commas, comments and byte-order marks between tokens are skipped.
-- The tokens end with the end of the text, or with the fault of the first piece that is no token.

namespace GraphqlArtifacts

namespace Graphql

-- A fault and the part of the text that starts there.
abbrev Located := SyntaxFault × List Char

-- A token without its place, and the rest of the text.
abbrev Lexeme := TokenKind × List Char × List Char

def isNameStart (c : Char) : Bool :=
  c.isAlpha || c == '_'

def isNameContinue (c : Char) : Bool :=
  c.isAlphanum || c == '_'

def isIgnored (c : Char) : Bool :=
  c == ' ' || c == '\t' || c == ',' || c == '\ufeff' || c == '\n' || c == '\r'

-- A text from its first character that is neither ignored nor part of a comment.
def skipIgnored : List Char → Bool → List Char
  | [], _ => []
  | c :: rest, inComment =>
    if inComment then skipIgnored rest (c != '\n' && c != '\r')
    else if c = '#' then skipIgnored rest true
    else if isIgnored c then skipIgnored rest false
    else c :: rest

def readDigits (s : List Char) : Except Located (List Char × List Char) :=
  match s.span Char.isDigit with
  | ([], rest) => .error (.expectedDigit rest.head?, rest)
  | digits => .ok digits

-- The digits before the point: a zero stands alone.
def readWhole : List Char → Except Located (List Char × List Char)
  | '0' :: rest =>
    match rest with
    | c :: _ => if c.isDigit then .error (.digitAfterZero (some c), rest) else .ok (['0'], rest)
    | [] => .ok (['0'], rest)
  | s => readDigits s

def readFraction : List Char → Except Located (List Char × List Char)
  | '.' :: rest => (readDigits rest).map fun (ds, r) => ('.' :: ds, r)
  | s => .ok ([], s)

def readExponent : List Char → Except Located (List Char × List Char)
  | [] => .ok ([], [])
  | c :: rest =>
    if c = 'e' ∨ c = 'E' then
      match rest with
      | '+' :: r => (readDigits r).map fun (ds, r) => (c :: '+' :: ds, r)
      | '-' :: r => (readDigits r).map fun (ds, r) => (c :: '-' :: ds, r)
      | r => (readDigits r).map fun (ds, r) => (c :: ds, r)
    else
      .ok ([], c :: rest)

-- A number, which no point and no letter may follow.
def readNumber (s : List Char) : Except Located Lexeme := do
  let (sign, s) := match s with
    | '-' :: rest => (['-'], rest)
    | s => ([], s)
  let (whole, s) ← readWhole s
  let (fraction, s) ← readFraction s
  let (exponent, s) ← readExponent s
  let kind := if fraction = [] ∧ exponent = [] then TokenKind.int else .float
  match s with
  | c :: _ =>
    if c = '.' ∨ isNameStart c then .error (.expectedDigit (some c), s)
    else .ok (kind, sign ++ whole ++ fraction ++ exponent, s)
  | [] => .ok (kind, sign ++ whole ++ fraction ++ exponent, s)

def escapedChar? : Char → Option Char
  | '"' => some '"'
  | '\\' => some '\\'
  | '/' => some '/'
  | 'b' => some '\x08'
  | 'f' => some '\x0c'
  | 'n' => some '\n'
  | 'r' => some '\r'
  | 't' => some '\t'
  | _ => none

def isScalarValue (n : Nat) : Bool :=
  n ≤ 0xD7FF || (0xE000 ≤ n && n ≤ 0x10FFFF)

-- The character of an escape with four digits, or of two that are a pair of surrogates.
def fixedEscape (s : List Char) : Except Located (Char × List Char) :=
  let fault : Except Located (Char × List Char) :=
    .error (.unicodeEscape (String.ofList (s.take 6)), s)
  match s with
  | _ :: _ :: a :: b :: c :: d :: rest =>
    match Json.hexValue? [a, b, c, d] with
    | none => fault
    | some n =>
      if isScalarValue n then
        .ok (Char.ofNat n, rest)
      else
        match rest with
        | '\\' :: 'u' :: a :: b :: c :: d :: rest =>
          match Json.hexValue? [a, b, c, d] with
          | some m =>
            if Json.isHighSurrogate n && Json.isLowSurrogate m then
              .ok (Char.ofNat (0x10000 + (n - 0xD800) * 0x400 + (m - 0xDC00)), rest)
            else
              fault
          | none => fault
        | _ => fault
  | _ => fault

-- The character of an escape with its digits in braces: at most twelve characters in all.
def bracedEscape (s : List Char) : Except Located (Char × List Char) :=
  let digits := (s.drop 3).take 9
  let hex := digits.takeWhile fun c => (Json.hexDigit? c).isSome
  let size := min (3 + hex.length + 1) (min 12 s.length)
  match digits.drop hex.length, Json.hexValue? hex with
  | '}' :: _, some n =>
    if hex ≠ [] ∧ isScalarValue n then
      .ok (Char.ofNat n, s.drop (4 + hex.length))
    else
      .error (.unicodeEscape (String.ofList (s.take size)), s)
  | _, _ => .error (.unicodeEscape (String.ofList (s.take size)), s)

-- The character of an escape, which starts with its backslash.
def readEscape (s : List Char) : Except Located (Char × List Char) :=
  match s with
  | _ :: 'u' :: '{' :: _ => bracedEscape s
  | _ :: 'u' :: _ => fixedEscape s
  | _ :: c :: rest =>
    match escapedChar? c with
    | some e => .ok (e, rest)
    | none => .error (.characterEscape (String.ofList (s.take 2)), s)
  | _ => .error (.characterEscape (String.ofList (s.take 2)), s)

-- A string up to its closing quote, on the same line. The fuel bounds its length.
def readString : Nat → List Char → Except Located (List Char × List Char)
  | 0, s => .error (.unterminatedString, s)
  | _, [] => .error (.unterminatedString, [])
  | fuel + 1, c :: rest =>
    if c = '"' then .ok ([], rest)
    else if c = '\n' ∨ c = '\r' then .error (.unterminatedString, c :: rest)
    else if c = '\\' then do
      let (e, rest) ← readEscape (c :: rest)
      let (s, rest) ← readString fuel rest
      return (e :: s, rest)
    else
      (readString fuel rest).map fun (s, r) => (c :: s, r)

-- The lines of a block string up to its closing quotes, after a part of a line.
def readBlock (line : List Char) : List Char → Except Located (List (List Char) × List Char)
  | [] => .error (.unterminatedString, [])
  | '"' :: '"' :: '"' :: rest => .ok ([line.reverse], rest)
  | '\\' :: '"' :: '"' :: '"' :: rest => readBlock ('"' :: '"' :: '"' :: line) rest
  | '\r' :: '\n' :: rest => (readBlock [] rest).map fun (ls, r) => (line.reverse :: ls, r)
  | c :: rest =>
    if c = '\n' ∨ c = '\r' then
      (readBlock [] rest).map fun (ls, r) => (line.reverse :: ls, r)
    else
      readBlock (c :: line) rest

def isBlankLine (line : List Char) : Bool :=
  line.all fun c => c == ' ' || c == '\t'

def indentOf (line : List Char) : Nat :=
  (line.takeWhile fun c => c == ' ' || c == '\t').length

-- The lines without their common indent, the first left as it is, and without blank ends.
def dedent (lines : List (List Char)) : List (List Char) :=
  let indents := ((lines.drop 1).filter (!isBlankLine ·)).map indentOf
  let shifted := match indents.min? with
    | none => lines.take 1 ++ (lines.drop 1).map fun _ => []
    | some n => lines.take 1 ++ (lines.drop 1).map (List.drop n)
  let blank := lines.map isBlankLine
  let first := (blank.takeWhile id).length
  let last := lines.length - (blank.reverse.takeWhile id).length
  (shifted.take last).drop first

-- The token that a text starts with, which is not ignored.
def readToken (s : List Char) : Except Located Lexeme :=
  match s with
  | [] => .ok (.endOfFile, [], [])
  | '"' :: '"' :: '"' :: rest =>
    (readBlock [] rest).map fun (lines, r) => (.blockString, ['\n'].intercalate (dedent lines), r)
  | '"' :: rest => (readString s.length rest).map fun (text, r) => (.string, text, r)
  | '.' :: '.' :: '.' :: rest => .ok (.spread, [], rest)
  | c :: rest =>
    match TokenKind.punctuator? c with
    | some kind => .ok (kind, [], rest)
    | none =>
      if c.isDigit || c == '-' then readNumber s
      else if isNameStart c then
        let (name, r) := s.span isNameContinue
        .ok (.name, name, r)
      else if c = '\'' then .error (.singleQuote, s)
      else .error (.unexpectedCharacter c, s)

-- The tokens from a place on, and the fault that they end with, if any.
structure Tokens where
  tokens : List Token
  fault : Option SyntaxError
  deriving Repr

-- The tokens of the rest of a text. The fuel bounds its length.
def scan (length : Nat) : Nat → List Char → Tokens
  | 0, _ => ⟨[], none⟩
  | fuel + 1, s =>
    let s := skipIgnored s false
    match readToken s with
    | .error (fault, rest) => ⟨[], some ⟨fault, length - rest.length⟩⟩
    | .ok (kind, text, rest) =>
      let token : Token := ⟨kind, length - s.length, String.ofList text⟩
      if kind = .endOfFile then
        ⟨[token], none⟩
      else
        let later := scan length fuel rest
        ⟨token :: later.tokens, later.fault⟩

def tokenize (s : List Char) : Tokens :=
  scan s.length (s.length + 1) s

end Graphql

end GraphqlArtifacts
