import GraphqlArtifacts.Graphql.Document
import GraphqlArtifacts.Graphql.Token

-- The text of documents: one item a line, two spaces for each level, and a blank line between
-- definitions.

namespace GraphqlArtifacts

namespace Graphql

namespace Printer

-- The parts that are not empty, with a separator between them.
def joined (separator : String) (parts : List String) : String :=
  separator.intercalate (parts.filter (· ≠ ""))

-- A text between two others, or nothing if it is empty.
def wrapped (opening s closing : String) : String :=
  if s = "" then "" else opening ++ s ++ closing

-- A line end is followed by two spaces.
def indentChar (c : Char) : List Char :=
  if c = '\n' then ['\n', ' ', ' '] else [c]

-- A text with two spaces at the start of each line.
def indented (s : String) : String :=
  wrapped "  " (String.ofList (s.toList.flatMap indentChar)) ""

-- Items in braces, one a line.
def block (items : List String) : String :=
  wrapped "\x7b\n" (indented (joined "\n" items)) "\n\x7d"

def escapeChar (c : Char) : List Char :=
  let n := c.toNat
  if c = '"' then ['\\', '"']
  else if c = '\\' then ['\\', '\\']
  else if c = '\x08' then ['\\', 'b']
  else if c = '\t' then ['\\', 't']
  else if c = '\n' then ['\\', 'n']
  else if c = '\x0c' then ['\\', 'f']
  else if c = '\r' then ['\\', 'r']
  else if n < 0x20 ∨ (0x7F ≤ n ∧ n < 0xA0) then
    '\\' :: 'u' :: (SyntaxFault.upperHex n).toList
  else [c]

def quotedString (s : String) : String :=
  String.ofList ('"' :: s.toList.flatMap escapeChar ++ ['"'])

-- Three quotes in a block are written with a backslash before them.
def escapeQuotes : List Char → List Char
  | [] => []
  | '"' :: '"' :: '"' :: rest => '\\' :: '"' :: '"' :: '"' :: escapeQuotes rest
  | c :: rest => c :: escapeQuotes rest

def isIndented (line : List Char) : Bool :=
  match line with
  | [] => true
  | c :: _ => c == ' ' || c == '\t'

-- A block string. It has lines of its own if that keeps its text or makes it readable.
def blockString (s : String) : String :=
  let value := s.toList
  let escaped := escapeQuotes value
  let lines := match Lines.splitAll escaped with
    | [] => [[]]
    | ls => ls
  let single := lines.length == 1
  let leadingLine := !single && (lines.drop 1).all isIndented
  let tripleAtEnd := ['\\', '"', '"', '"'].isSuffixOf escaped
  let trailingLine := (value.getLast? == some '"' && !tripleAtEnd) || value.getLast? == some '\\'
  let multiple := !single || 70 < value.length || trailingLine || leadingLine || tripleAtEnd
  let startsIndented := single && value != [] && isIndented value
  let before := if (multiple && !startsIndented) || leadingLine then "\n" else ""
  let after := if multiple || trailingLine then "\n" else ""
  "\"\"\"" ++ before ++ String.ofList escaped ++ after ++ "\"\"\""

end Printer

open Printer

namespace Value

mutual

def print : Value → String
  | .variable name => "$" ++ name
  | .int text | .float text => text
  | .string s isBlock => if isBlock then blockString s else quotedString s
  | .boolean b => if b then "true" else "false"
  | .null => "null"
  | .enum name => name
  | .list items => "[" ++ ", ".intercalate (printItems items) ++ "]"
  | .object fields => "\x7b" ++ ", ".intercalate (printFields fields) ++ "\x7d"

def printItems : List Value → List String
  | [] => []
  | v :: rest => print v :: printItems rest

def printFields : List (String × Value) → List String
  | [] => []
  | (key, v) :: rest => (key ++ ": " ++ print v) :: printFields rest

end

end Value

def TypeRef.print : TypeRef → String
  | .named name => name
  | .list item => "[" ++ item.print ++ "]"
  | .nonNull type => type.print ++ "!"

def Argument.print (a : Argument) : String :=
  a.name ++ ": " ++ a.value.print

def printArguments (as : List Argument) : String :=
  wrapped "(" (joined ", " (as.map Argument.print)) ")"

def Directive.print (d : Directive) : String :=
  "@" ++ d.name ++ printArguments d.arguments

def printDirectives (ds : List Directive) : String :=
  joined " " (ds.map Directive.print)

-- The longest line of a field with its arguments on one line.
def maxLineLength : Nat := 80

-- A field's name with its arguments, one a line if they do not fit.
def printCall (key : String) (as : List Argument) : String :=
  let line := key ++ printArguments as
  if maxLineLength < line.length then
    key ++ wrapped "(\n" (indented (joined "\n" (as.map Argument.print))) "\n)"
  else
    line

namespace Selection

mutual

def print : Selection → String
  | .field renamed name arguments directives selections =>
    let key := wrapped "" (renamed.getD "") ": " ++ name
    joined " " [printCall key arguments, printDirectives directives, block (printAll selections)]
  | .spread name directives => "..." ++ name ++ wrapped " " (printDirectives directives) ""
  | .inlineFragment condition directives selections =>
    joined " " ["...", wrapped "on " (condition.getD "") "", printDirectives directives,
      block (printAll selections)]

def printAll : List Selection → List String
  | [] => []
  | s :: rest => print s :: printAll rest

end

end Selection

def VariableDefinition.print (v : VariableDefinition) : String :=
  "$" ++ v.name ++ ": " ++ v.type.print ++
    wrapped " = " ((v.defaultValue.map Value.print).getD "") "" ++
    wrapped " " (printDirectives v.directives) ""

def Operation.print (o : Operation) : String :=
  let definitions := wrapped "(" (joined ", " (o.variableDefinitions.map VariableDefinition.print)) ")"
  let head :=
    joined " " [o.kind.keyword, o.name.getD "" ++ definitions, printDirectives o.directives]
  (if head = "query" then "" else head ++ " ") ++ block (Selection.printAll o.selections)

def Fragment.print (f : Fragment) : String :=
  "fragment " ++ f.name ++ " on " ++ f.typeCondition ++ " " ++
    wrapped "" (printDirectives f.directives) " " ++ block (Selection.printAll f.selections)

def Description.print (d : Description) : String :=
  if d.block then blockString d.value else quotedString d.value

def withDescription (d : Option Description) (s : String) : String :=
  wrapped "" ((d.map Description.print).getD "") "\n" ++ s

def InputDefinition.print (d : InputDefinition) : String :=
  withDescription d.description <|
    joined " " [d.name ++ ": " ++ d.type.print,
      wrapped "= " ((d.defaultValue.map Value.print).getD "") "", printDirectives d.directives]

-- Definitions of arguments, one a line if one of them has several lines.
def printInputs (ds : List InputDefinition) : String :=
  let items := ds.map InputDefinition.print
  if items.any (·.contains '\n') then wrapped "(\n" (indented (joined "\n" items)) "\n)"
  else wrapped "(" (joined ", " items) ")"

def FieldDefinition.print (d : FieldDefinition) : String :=
  withDescription d.description <|
    d.name ++ printInputs d.arguments ++ ": " ++ d.type.print ++
      wrapped " " (printDirectives d.directives) ""

def EnumValueDefinition.print (d : EnumValueDefinition) : String :=
  withDescription d.description (joined " " [d.name, printDirectives d.directives])

def RootOperation.print (r : RootOperation) : String :=
  r.kind.keyword ++ ": " ++ r.type

def printInterfaces (names : List String) : String :=
  wrapped "implements " (joined " & " names) ""

-- A type or an extension of one, after what stands before its keyword.
def TypeDefinition.printAfter (start : String) (t : TypeDefinition) : String :=
  let directives := printDirectives t.directives
  withDescription t.description <| joined " " <|
    match t.body with
    | .scalar => [start ++ "scalar", t.name, directives]
    | .object interfaces fields =>
      [start ++ "type", t.name, printInterfaces interfaces, directives,
        block (fields.map FieldDefinition.print)]
    | .interface interfaces fields =>
      [start ++ "interface", t.name, printInterfaces interfaces, directives,
        block (fields.map FieldDefinition.print)]
    | .union members =>
      [start ++ "union", t.name, directives, wrapped "= " (joined " | " members) ""]
    | .enum values =>
      [start ++ "enum", t.name, directives, block (values.map EnumValueDefinition.print)]
    | .input fields =>
      [start ++ "input", t.name, directives, block (fields.map InputDefinition.print)]

def DirectiveDefinition.print (d : DirectiveDefinition) : String :=
  withDescription d.description <|
    "directive @" ++ d.name ++ printInputs d.arguments ++
      (if d.repeatable then " repeatable" else "") ++ " on " ++ joined " | " d.locations

def Definition.print : Definition → String
  | .operation o => o.print
  | .fragment f => f.print
  | .schema description directives roots =>
    withDescription description <|
      joined " " ["schema", printDirectives directives, block (roots.map RootOperation.print)]
  | .type t => t.printAfter ""
  | .directive d => d.print
  | .schemaExtension directives roots =>
    joined " " ["extend schema", printDirectives directives, block (roots.map RootOperation.print)]
  | .typeExtension t => t.printAfter "extend "

end Graphql

end GraphqlArtifacts
