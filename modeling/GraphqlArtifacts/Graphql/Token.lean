import GraphqlArtifacts.Text.Lines

-- Tokens, and the faults of a document's text: each has a description and a position, and is shown
-- with the lines around it.

namespace GraphqlArtifacts

namespace Graphql

inductive TokenKind
  | endOfFile
  | bang
  | dollar
  | ampersand
  | parenLeft
  | parenRight
  | spread
  | colon
  | equals
  | at
  | bracketLeft
  | bracketRight
  | braceLeft
  | pipe
  | braceRight
  | name
  | int
  | float
  | string
  | blockString
  deriving DecidableEq, Repr

namespace TokenKind

-- The name of a kind in messages: punctuators stand in quotes.
def display : TokenKind → String
  | .endOfFile => "<EOF>"
  | .bang => "'!'"
  | .dollar => "'$'"
  | .ampersand => "'&'"
  | .parenLeft => "'('"
  | .parenRight => "')'"
  | .spread => "'...'"
  | .colon => "':'"
  | .equals => "'='"
  | .at => "'@'"
  | .bracketLeft => "'['"
  | .bracketRight => "']'"
  | .braceLeft => "'\x7b'"
  | .pipe => "'|'"
  | .braceRight => "'\x7d'"
  | .name => "Name"
  | .int => "Int"
  | .float => "Float"
  | .string => "String"
  | .blockString => "BlockString"

-- The punctuator that is a single character.
def punctuator? : Char → Option TokenKind
  | '!' => some .bang
  | '$' => some .dollar
  | '&' => some .ampersand
  | '(' => some .parenLeft
  | ')' => some .parenRight
  | ':' => some .colon
  | '=' => some .equals
  | '@' => some .at
  | '[' => some .bracketLeft
  | ']' => some .bracketRight
  | '{' => some .braceLeft
  | '|' => some .pipe
  | '}' => some .braceRight
  | _ => none

-- Whether tokens of a kind have a text of their own.
def hasText : TokenKind → Bool
  | .name | .int | .float | .string | .blockString => true
  | _ => false

end TokenKind

-- What is wrong with a text. Tokens are kept as messages show them.
inductive SyntaxFault
  | singleQuote
  | unexpectedCharacter (c : Char)
  | digitAfterZero (found : Option Char)
  | expectedDigit (found : Option Char)
  | unterminatedString
  | unicodeEscape (escape : String)
  | characterEscape (escape : String)
  | expected (what found : String)
  | unexpected (found : String)
  | unexpectedDescription
  | variableInConstant (name : String)
  | reservedEnumValue (found : String)
  deriving DecidableEq, Repr

namespace SyntaxFault

def upperHex (n : Nat) : String :=
  let ds := (Nat.toDigits 16 n).map Char.toUpper
  String.ofList (List.replicate (4 - ds.length) '0' ++ ds)

-- A character in quotes, or its code point if it is not a visible one.
def showChar : Option Char → String
  | none => "<EOF>"
  | some c =>
    if c = '"' then "'\"'"
    else if ' ' ≤ c ∧ c ≤ '~' then s!"'{c}'"
    else "U+" ++ upperHex c.toNat

def description : SyntaxFault → String
  | .singleQuote =>
    "Unexpected single quote character ('), did you mean to use a double quote (\")?"
  | .unexpectedCharacter c => s!"Unexpected character: {showChar (some c)}."
  | .digitAfterZero found => s!"Invalid number, unexpected digit after 0: {showChar found}."
  | .expectedDigit found => s!"Invalid number, expected digit but got: {showChar found}."
  | .unterminatedString => "Unterminated string."
  | .unicodeEscape escape => s!"Invalid Unicode escape sequence: '{escape}'."
  | .characterEscape escape => s!"Invalid character escape sequence: '{escape}'."
  | .expected what found => s!"Expected {what}, found {found}."
  | .unexpected found => s!"Unexpected {found}."
  | .unexpectedDescription =>
    "Unexpected description, descriptions are supported only on type definitions."
  | .variableInConstant name => s!"Unexpected variable '${name}' in constant value."
  | .reservedEnumValue found => s!"{found} is reserved and cannot be used for an enum value."

end SyntaxFault

-- A fault and the number of characters before it.
structure SyntaxError where
  fault : SyntaxFault
  position : Nat
  deriving DecidableEq, Repr

namespace SyntaxError

def message (e : SyntaxError) : String :=
  "Syntax Error: " ++ e.fault.description

def alignRight (width : Nat) (s : List Char) : List Char :=
  List.replicate (width - s.length) ' ' ++ s

-- Lines with their labels, the labels flush right. An empty line has no space after its label.
def labelled (lines : List (List Char × List Char)) : String :=
  let width := lines.foldl (fun w l => max w l.1.length) 0
  let shown := lines.map fun (label, line) =>
    String.ofList (alignRight width label ++ (if line = [] then [] else ' ' :: line))
  "\n".intercalate shown

def lineLabel (n : Nat) : List Char :=
  (toString n).toList ++ [' ', '|']

-- Cuts a line into pieces of eighty characters. The fuel bounds its length.
def pieces : Nat → List Char → List (List Char)
  | 0, _ => []
  | fuel + 1, s => if s = [] then [] else s.take 80 :: pieces fuel (s.drop 80)

-- The lines around a place, with a mark below it. Of a long line the pieces around it.
def excerpt (source : List Char) (p : Lines.Place) : String :=
  let lines := Lines.split source
  let index := p.line - 1
  let line := lines.getD index []
  let mark (column : Nat) : List Char × List Char := (['|'], alignRight column ['^'])
  if 120 < line.length then
    let parts := pieces line.length line
    let part := p.column / 80
    let next := (parts[part + 1]?).toList.map fun s => (['|'], s)
    labelled ((lineLabel p.line, parts.headD []) ::
      ((parts.drop 1).take part).map (fun s => (['|'], s)) ++ mark (p.column % 80) :: next)
  else
    let before := if index = 0 then [] else [(lineLabel index, lines.getD (index - 1) [])]
    let after := (lines[index + 1]?).toList.map fun s => (lineLabel (p.line + 1), s)
    labelled (before ++ (lineLabel p.line, line) :: mark p.column :: after)

-- The message with the place of the fault and the lines around it.
def report (source : String) (e : SyntaxError) : String :=
  let s := source.toList
  let p := Lines.placeAfter (s.take e.position)
  s!"{e.message}\n\nGraphQL request:{p.line}:{p.column}\n{excerpt s p}"

end SyntaxError

-- A token: its kind, the number of characters before it, and its text.
structure Token where
  kind : TokenKind
  start : Nat
  text : String
  deriving DecidableEq, Repr

def Token.display (t : Token) : String :=
  if t.kind.hasText then s!"{t.kind.display} '{t.text}'" else t.kind.display

end Graphql

end GraphqlArtifacts
