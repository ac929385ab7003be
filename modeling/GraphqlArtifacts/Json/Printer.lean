import GraphqlArtifacts.Data.Basic

-- Writing JSON in ASCII: on one line, or with one item a line and two spaces for each level.

namespace GraphqlArtifacts

namespace Json

def unitEscape (n : Nat) : List Char :=
  '\\' :: 'u' :: Quoted.hexDigits n 4

-- What is written for a character inside a string.
def escapeChar (c : Char) : List Char :=
  let n := c.toNat
  if c = '"' then ['\\', '"']
  else if c = '\\' then ['\\', '\\']
  else if c = '\n' then ['\\', 'n']
  else if c = '\r' then ['\\', 'r']
  else if c = '\t' then ['\\', 't']
  else if c = '\x0c' then ['\\', 'f']
  else if c = '\x08' then ['\\', 'b']
  else if 0x20 ≤ n ∧ n < 0x7F then [c]
  else if n < 0x10000 then unitEscape n
  else
    unitEscape (0xD800 + (n - 0x10000) / 0x400) ++ unitEscape (0xDC00 + (n - 0x10000) % 0x400)

def escape (s : List Char) : List Char :=
  s.flatMap escapeChar

def quote (s : String) : List Char :=
  '"' :: escape s.toList ++ ['"']

def floatText : Binary64 → String
  | .nan => "NaN"
  | .infinite s => if s then "-Infinity" else "Infinity"
  | x => x.text

-- Where the items of a list or table stand: on the same line, or each on a line of its own.
inductive Layout
  | line
  | indented (depth : Nat)

namespace Layout

def inner : Layout → Layout
  | .line => .line
  | .indented depth => .indented (depth + 1)

def newline : Layout → List Char
  | .line => []
  | .indented depth => '\n' :: List.replicate (2 * depth) ' '

def colon : Layout → List Char
  | .line => [':']
  | .indented _ => [':', ' ']

end Layout

mutual

def chars (layout : Layout) : Data → List Char
  | .null => "null".toList
  | .bool b => (if b then "true" else "false").toList
  | .int n => (toString n).toList
  | .float x => (floatText x).toList
  | .text s => quote s
  | .moment m => quote m.text
  | .list [] => ['[', ']']
  | .list (d :: rest) =>
    '[' :: layout.inner.newline ++ chars layout.inner d ++ itemChars layout.inner rest ++
      layout.newline ++ [']']
  | .table [] => ['{', '}']
  | .table ((key, d) :: rest) =>
    '{' :: layout.inner.newline ++ quote key ++ layout.colon ++ chars layout.inner d ++
      entryChars layout.inner rest ++ layout.newline ++ ['}']

-- Further items, each after a comma.
def itemChars (layout : Layout) : List Data → List Char
  | [] => []
  | d :: rest => ',' :: layout.newline ++ chars layout d ++ itemChars layout rest

-- Further entries, each after a comma.
def entryChars (layout : Layout) : List (String × Data) → List Char
  | [] => []
  | (key, d) :: rest =>
    ',' :: layout.newline ++ quote key ++ layout.colon ++ chars layout d ++ entryChars layout rest

end

-- A value with one item a line.
def pretty (d : Data) : String :=
  String.ofList (chars (.indented 0) d)

def compact (d : Data) : String :=
  String.ofList (chars .line d)

end Json

end GraphqlArtifacts
