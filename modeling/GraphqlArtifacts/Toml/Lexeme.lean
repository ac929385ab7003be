import GraphqlArtifacts.Data.Basic
import GraphqlArtifacts.Json.Reader

-- The smallest parts of TOML documents: keys, strings, numbers, dates and times, and what lies
-- between them. Each reader gives what it read and the rest of the text, or nothing.

namespace GraphqlArtifacts

namespace Toml

-- What reading from a text gives: a value and the rest of the text.
abbrev Reader (α : Type) := List Char → Option (α × List Char)

def isSpace (c : Char) : Bool :=
  c == ' ' || c == '\t'

def isSpaceOrNewline (c : Char) : Bool :=
  isSpace c || c == '\n'

def isBareKeyChar (c : Char) : Bool :=
  c.isAlphanum || c == '-' || c == '_'

-- Control characters that stand in no string and no comment.
def isForbidden (c : Char) : Bool :=
  (c.toNat < 0x20 && c != '\t') || c.toNat == 0x7F

def skipSpaces (s : List Char) : List Char :=
  s.dropWhile isSpace

-- The rest of a text after a comment, if it starts with one.
def skipComment (s : List Char) : Option (List Char) :=
  match s with
  | '#' :: rest =>
    let (comment, rest) := rest.span (· != '\n')
    if comment.any isForbidden then none else some rest
  | s => some s

-- The rest of a text after spaces, line ends and comments. The fuel bounds their number.
def skipBlank : Nat → List Char → Option (List Char)
  | 0, s => some s
  | fuel + 1, s =>
    match s.dropWhile isSpaceOrNewline with
    | '#' :: rest => do skipBlank fuel (← skipComment ('#' :: rest))
    | rest => some rest

-- Strings

-- The character with a code point of so many hexadecimal digits.
def readCodePoint (count : Nat) : Reader Char := fun s => do
  let digits := s.take count
  if digits.length ≠ count then none
  let n ← Json.hexValue? digits
  if n < 0xD800 || (0xE000 ≤ n && n ≤ 0x10FFFF) then some (Char.ofNat n, s.drop count) else none

-- What an escape after its backslash stands for: in a string of several lines also nothing, up to
-- the next character that is no blank.
def readEscape (multiline : Bool) (s : List Char) : Option (List Char × List Char) :=
  match s with
  | [] => none
  | c :: rest =>
    let plain (d : Char) : Option (List Char × List Char) := some ([d], rest)
    let afterLineEnd : Option (List Char × List Char) :=
      match rest.dropWhile isSpace with
      | [] => some ([], [])
      | '\n' :: more => some ([], more.dropWhile isSpaceOrNewline)
      | _ => none
    match c with
    | 'b' => plain '\x08'
    | 't' => plain '\t'
    | 'n' => plain '\n'
    | 'f' => plain '\x0c'
    | 'r' => plain '\r'
    | '"' => plain '"'
    | '\\' => plain '\\'
    | 'u' => (readCodePoint 4 rest).map fun (d, r) => ([d], r)
    | 'U' => (readCodePoint 8 rest).map fun (d, r) => ([d], r)
    | ' ' | '\t' => if multiline then afterLineEnd else none
    | '\n' => if multiline then some ([], rest.dropWhile isSpaceOrNewline) else none
    | _ => none

-- A string with escapes up to its closing quotes. The fuel bounds its length.
def readBasic (multiline : Bool) : Nat → Reader (List Char)
  | 0, _ => none
  | _, [] => none
  | fuel + 1, c :: rest =>
    let continued (read : List Char) (rest : List Char) : Option (List Char × List Char) :=
      (readBasic multiline fuel rest).map fun (s, r) => (read ++ s, r)
    if c = '"' then
      if !multiline then some ([], rest)
      else
        match rest with
        | '"' :: '"' :: more => some ([], more)
        | rest => continued ['"'] rest
    else if c = '\\' then do
      let (read, rest) ← readEscape multiline rest
      continued read rest
    else if isForbidden c && !(multiline && c == '\n') then
      none
    else
      continued [c] rest

-- A string without escapes up to its closing quotes.
def readLiteral (multiline : Bool) : List Char → Option (List Char × List Char)
  | [] => none
  | c :: rest =>
    let continued : Option (List Char × List Char) :=
      (readLiteral multiline rest).map fun (s, r) => (c :: s, r)
    if c = '\'' then
      if !multiline then some ([], rest)
      else
        match rest with
        | '\'' :: '\'' :: more => some ([], more)
        | _ => continued
    else if isForbidden c && !(multiline && c == '\n') then
      none
    else
      continued

-- Up to two more quotes, which belong to a string of several lines.
def readFurtherQuotes (quote : Char) : List Char → List Char × List Char
  | c :: d :: rest =>
    if c = quote ∧ d = quote then ([c, d], rest)
    else if c = quote then ([c], d :: rest)
    else ([], c :: d :: rest)
  | [c] => if c = quote then ([c], []) else ([], [c])
  | [] => ([], [])

def dropNewline : List Char → List Char
  | '\n' :: rest => rest
  | s => s

def readString : Reader String := fun s =>
  let several (quote : Char) (read : Option (List Char × List Char)) :
      Option (String × List Char) :=
    read.map fun (text, rest) =>
      let (quotes, rest) := readFurtherQuotes quote rest
      (String.ofList (text ++ quotes), rest)
  let one (read : Option (List Char × List Char)) : Option (String × List Char) :=
    read.map fun (text, rest) => (String.ofList text, rest)
  match s with
  | '"' :: '"' :: '"' :: rest => several '"' (readBasic true rest.length.succ (dropNewline rest))
  | '"' :: rest => one (readBasic false rest.length.succ rest)
  | '\'' :: '\'' :: '\'' :: rest => several '\'' (readLiteral true (dropNewline rest))
  | '\'' :: rest => one (readLiteral false rest)
  | _ => none

-- Keys

def readKeyPart : Reader String
  | [] => none
  | c :: rest =>
    if isBareKeyChar c then
      let (part, rest) := (c :: rest).span isBareKeyChar
      some (String.ofList part, rest)
    else if c = '\'' then
      (readLiteral false rest).map fun (part, r) => (String.ofList part, r)
    else if c = '"' then
      (readBasic false rest.length.succ rest).map fun (part, r) => (String.ofList part, r)
    else
      none

-- A key with parts between dots, and the spaces after it. The fuel bounds their number.
def readKeyWithin : Nat → Reader (List String)
  | 0, _ => none
  | fuel + 1, s => do
    let (part, rest) ← readKeyPart s
    match skipSpaces rest with
    | '.' :: more => do
      let (parts, rest) ← readKeyWithin fuel (skipSpaces more)
      some (part :: parts, rest)
    | rest => some ([part], rest)

def readKey : Reader (List String) := fun s =>
  readKeyWithin s.length.succ s

-- Numbers

-- Digits of a kind, with single underscores between them.
def readDigits (isDigit : Char → Bool) : List Char → List Char × List Char
  | [] => ([], [])
  | c :: rest =>
    if isDigit c then
      match rest with
      | '_' :: d :: more =>
        if isDigit d then
          let (ds, r) := readDigits isDigit (d :: more)
          (c :: ds, r)
        else
          ([c], rest)
      | rest =>
        let (ds, r) := readDigits isDigit rest
        (c :: ds, r)
    else
      ([], c :: rest)

def valueOf (base : Nat) (digits : List Char) : Nat :=
  digits.foldl (fun n c => n * base + (Json.hexDigit? c).getD 0) 0

def isHexDigit (c : Char) : Bool :=
  (Json.hexDigit? c).isSome

-- An integer with a letter for its base.
def readBased : Reader Int
  | '0' :: letter :: rest =>
    let read (base : Nat) (isDigit : Char → Bool) : Option (Int × List Char) :=
      match readDigits isDigit rest with
      | ([], _) => none
      | (ds, r) => some (valueOf base ds, r)
    match letter with
    | 'x' => read 16 isHexDigit
    | 'o' => read 8 fun c => '0' ≤ c && c ≤ '7'
    | 'b' => read 2 fun c => c == '0' || c == '1'
    | _ => none
  | _ => none

def readSign : List Char → Bool × List Char
  | '-' :: rest => (true, rest)
  | '+' :: rest => (false, rest)
  | s => (false, s)

-- Digits after a point, at least one.
def readFraction (s : List Char) : Option (List Char) × List Char :=
  match s with
  | '.' :: rest =>
    match readDigits Char.isDigit rest with
    | ([], _) => (none, s)
    | (ds, r) => (some ds, r)
  | s => (none, s)

def readExponent (s : List Char) : Option Int × List Char :=
  match s with
  | c :: rest =>
    if c = 'e' ∨ c = 'E' then
      let (negative, rest) := readSign rest
      match readDigits Char.isDigit rest with
      | ([], _) => (none, s)
      | (ds, r) => (some (if negative then -(valueOf 10 ds : Int) else valueOf 10 ds), r)
    else
      (none, s)
  | [] => (none, s)

-- A decimal number: a float if it has a fraction or an exponent.
def readDecimal : Reader Data := fun s =>
  let (negative, rest) := readSign s
  let whole : Option (List Char × List Char) := match rest with
    | '0' :: rest => some (['0'], rest)
    | rest =>
      match readDigits Char.isDigit rest with
      | ([], _) => none
      | read => some read
  whole.map fun (ds, rest) =>
    match readFraction rest with
    | (fraction, rest) =>
      match readExponent rest with
      | (exponent, rest) =>
        if fraction.isNone && exponent.isNone then
          let n : Int := valueOf 10 ds
          (.int (if negative then -n else n), rest)
        else
          let decimals := fraction.getD []
          (.float (.ofDecimal negative (valueOf 10 (ds ++ decimals))
            (exponent.getD 0 - decimals.length)), rest)

def readSpecialFloat : Reader Data := fun s =>
  let (negative, rest) := readSign s
  match rest with
  | 'i' :: 'n' :: 'f' :: rest => some (.float (.infinite negative), rest)
  | 'n' :: 'a' :: 'n' :: rest => some (.float .nan, rest)
  | _ => none

-- Dates and times

-- A number of so many decimal digits.
def readFixed (count : Nat) : Reader Nat := fun s =>
  let digits := s.take count
  if digits.length = count ∧ digits.all Char.isDigit then
    some (valueOf 10 digits, s.drop count)
  else
    none

def readChar (c : Char) : Reader Unit
  | d :: rest => if c = d then some ((), rest) else none
  | [] => none

-- A date whose month and day are in range, but perhaps not in that month.
def readDate : Reader CalendarDate := fun s => do
  let (year, s) ← readFixed 4 s
  let ((), s) ← readChar '-' s
  let (month, s) ← readFixed 2 s
  let ((), s) ← readChar '-' s
  let (day, s) ← readFixed 2 s
  if 1 ≤ month ∧ month ≤ 12 ∧ 1 ≤ day ∧ day ≤ 31 then some (⟨year, month, day⟩, s) else none

-- A fraction of a second, of which six digits count.
def readMicroseconds (s : List Char) : Nat × List Char :=
  match s with
  | '.' :: rest =>
    match rest.span Char.isDigit with
    | ([], _) => (0, s)
    | (ds, r) =>
      let kept := ds.take 6
      (valueOf 10 (kept ++ List.replicate (6 - kept.length) '0'), r)
  | s => (0, s)

def readTime : Reader ClockTime := fun s => do
  let (hour, s) ← readFixed 2 s
  let ((), s) ← readChar ':' s
  let (minute, s) ← readFixed 2 s
  let ((), s) ← readChar ':' s
  let (second, s) ← readFixed 2 s
  let (microsecond, s) := readMicroseconds s
  let t : ClockTime := ⟨hour, minute, second, microsecond⟩
  if t.isValid then some (t, s) else none

-- The distance from universal time in minutes, if it is given.
def readOffset (s : List Char) : Option Int × List Char :=
  match s with
  | 'Z' :: rest | 'z' :: rest => (some 0, rest)
  | '+' :: rest => (distance rest).elim (none, s) fun (n, r) => (some n, r)
  | '-' :: rest => (distance rest).elim (none, s) fun (n, r) => (some (-n), r)
  | s => (none, s)
where
  distance : List Char → Option (Int × List Char) := fun s => do
    let (hour, s) ← readFixed 2 s
    let ((), s) ← readChar ':' s
    let (minute, s) ← readFixed 2 s
    if hour < 24 ∧ minute < 60 then some (hour * 60 + minute, s) else none

-- A date, perhaps with a time after it.
def readDateTime : Reader Moment := fun s => do
  let (d, rest) ← readDate s
  let time := match rest with
    | 'T' :: more | 't' :: more | ' ' :: more => readTime more
    | _ => none
  match time with
  | none => some (.date d, rest)
  | some (t, rest) =>
    let (offset, rest) := readOffset rest
    some (.dateTime d t offset, rest)

-- Whether the date of a moment is in the calendar.
def isInCalendar : Moment → Bool
  | .date d | .dateTime d _ _ => d.isValid
  | .time _ => true

end Toml

end GraphqlArtifacts
