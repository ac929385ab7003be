-- The lines of a text, and places in it.

namespace GraphqlArtifacts

namespace Lines

-- A character that ends a line. A carriage return with the line feed after it ends one line.
def isLineEnd (c : Char) : Bool :=
  c.toNat ∈ [0x0A, 0x0B, 0x0C, 0x0D, 0x1C, 0x1D, 0x1E, 0x85, 0x2028, 0x2029]

-- Cuts a text at its line ends, after the start of a line that was already read.
def splitFrom (isEnd : Char → Bool) (line : List Char) : List Char → List (List Char)
  | [] => [line.reverse]
  | '\r' :: '\n' :: rest => line.reverse :: splitFrom isEnd [] rest
  | c :: rest =>
    if isEnd c then line.reverse :: splitFrom isEnd [] rest else splitFrom isEnd (c :: line) rest

-- The lines between line feeds and carriage returns.
def split (s : List Char) : List (List Char) :=
  splitFrom (fun c => c == '\n' || c == '\r') [] s

-- The lines between line ends of all kinds. A line end at the end of a text starts no line.
def splitAll (s : List Char) : List (List Char) :=
  let lines := splitFrom isLineEnd [] s
  if lines.getLast? = some [] then lines.dropLast else lines

-- A place in a text. Lines and columns are counted from one.
structure Place where
  line : Nat
  column : Nat
  deriving DecidableEq, Repr

-- The place before which some characters stand: the end of the last line that they start.
def placeAfter (before : List Char) : Place :=
  match (splitAll before).getLast? with
  | none => ⟨1, 1⟩
  | some line => ⟨(splitAll before).length, line.length + 1⟩

end Lines

end GraphqlArtifacts
