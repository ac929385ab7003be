import GraphqlArtifacts.Glob.Pattern

-- The written form of an expression, and its reader. A set with nothing in it but a negation sign
-- has no end of its own: written out, it runs on through what follows it up to the next bracket
-- that closes a set. So a pattern with such a set is written and read back as a whole.

namespace GraphqlArtifacts

namespace Glob

-- A character is written after a backslash. Inside a set only the backslash is. A dot that follows
-- no backslash is any character on the same line.
def writtenChar (c : Char) : List Char :=
  ['\\', c]

def writtenGuard (guarded : Bool) : List Char :=
  if guarded then "(?!\\.)".toList else []

def writtenBody : List Char → List Char
  | '!' :: rest => '^' :: rest.flatMap fun c => if c = '\\' then ['\\', c] else [c]
  | body => body.flatMap fun c => if c = '\\' then ['\\', c] else [c]

def Quantifier.written : Quantifier → List Char
  | .once => []
  | .optional => ['?']
  | .anyNumber => ['*']
  | .atLeastOnce => ['+']

mutual

def Piece.written : Piece → List Char
  | .char c => writtenChar c
  | .anyChar guarded => writtenGuard guarded ++ "[^/]".toList
  | .anyRun guarded => writtenGuard guarded ++ "[^/]*".toList
  | .set guarded body => writtenGuard guarded ++ '[' :: writtenBody body ++ [']']
  | .group q alternatives =>
    "(?:".toList ++ writtenAlternatives alternatives ++ ')' :: q.written

def writtenPieces : List Piece → List Char
  | [] => []
  | p :: rest => p.written ++ writtenPieces rest

def writtenAlternatives : List (List Piece) → List Char
  | [] => []
  | [ps] => writtenPieces ps
  | ps :: rest => writtenPieces ps ++ '|' :: writtenAlternatives rest

end

def writtenSegments : List Segment → List Char
  | [] => []
  | [.anyDepth] => "(?:(?!\\.)[^/]*(?:/(?!\\.)[^/]*)*)".toList
  | [.pieces ps] => writtenPieces ps
  | .anyDepth :: rest => "(?:(?!\\.)[^/]+/)*".toList ++ writtenSegments rest
  | .pieces ps :: rest => writtenPieces ps ++ '/' :: writtenSegments rest

-- The character that an element of a set stands for, and what follows it.
def readElement : List Char → Option (Char × List Char)
  | [] => none
  | ['\\'] => none
  | '\\' :: c :: rest => some (c, rest)
  | c :: rest => some (c, rest)

-- The ranges of a set up to its closing bracket, which is not its first element.
def readRanges : Nat → List (Char × Char) → List Char → Option (List (Char × Char) × List Char)
  | 0, _, _ => none
  | fuel + 1, ranges, s =>
    match s, ranges with
    | ']' :: rest, _ :: _ => some (ranges, rest)
    | s, ranges => do
      let (first, rest) ← readElement s
      match rest with
      | '-' :: ']' :: rest => some (ranges ++ [(first, first), ('-', '-')], rest)
      | '-' :: rest =>
        let (last, rest) ← readElement rest
        if last < first then none else readRanges fuel (ranges ++ [(first, last)]) rest
      | rest => readRanges fuel (ranges ++ [(first, first)]) rest

-- A set after its opening bracket.
def readSet (s : List Char) : Option (CharSet × List Char) :=
  let (negated, s) := match s with
    | '^' :: rest => (true, rest)
    | s => (false, s)
  (readRanges (s.length + 1) [] s).map fun (ranges, rest) => (⟨negated, ranges⟩, rest)

-- The repetition that a sign asks for.
def repeated (r : Regex) : List Char → Regex × List Char
  | '*' :: rest => (.star r, rest)
  | '+' :: rest => (r.plus, rest)
  | '?' :: rest => (r.optional, rest)
  | s => (r, s)

-- A group that is being read: its finished alternatives and the items of the latest one.
structure OpenGroup where
  alternatives : List Regex
  items : List Regex

namespace OpenGroup

def start : OpenGroup :=
  ⟨[], []⟩

def add (g : OpenGroup) (r : Regex) : OpenGroup :=
  { g with items := g.items ++ [r] }

def nextAlternative (g : OpenGroup) : OpenGroup :=
  ⟨g.alternatives ++ [.catAll g.items], []⟩

def close (g : OpenGroup) : Regex :=
  .altAll (g.alternatives ++ [.catAll g.items])

end OpenGroup

-- Reads a written expression, inside the group that is open and those around it.
def readWritten : Nat → OpenGroup → List OpenGroup → List Char → Option Regex
  | _, g, [], [] => some g.close
  | 0, _, _, _ => none
  | _, _, _, [] => none
  | fuel + 1, g, outer, '(' :: '?' :: ':' :: rest => readWritten fuel .start (g :: outer) rest
  | fuel + 1, g, outer, '(' :: '?' :: '!' :: '\\' :: '.' :: ')' :: rest =>
    readWritten fuel (g.add .notDot) outer rest
  | fuel + 1, g, outer, '|' :: rest => readWritten fuel g.nextAlternative outer rest
  | fuel + 1, g, outer, ')' :: rest =>
    match outer with
    | [] => none
    | g' :: outer =>
      let (r, rest) := repeated g.close rest
      readWritten fuel (g'.add r) outer rest
  | fuel + 1, g, outer, '[' :: rest => do
    let (set, rest) ← readSet rest
    let (r, rest) := repeated (.one set) rest
    readWritten fuel (g.add r) outer rest
  | fuel + 1, g, outer, '.' :: rest =>
    let (r, rest) := repeated (.one ⟨true, [('\n', '\n')]⟩) rest
    readWritten fuel (g.add r) outer rest
  | fuel + 1, g, outer, s => do
    if s.head? ∈ [some '*', some '+', some '?'] then
      none
    else
      let (c, rest) ← readElement s
      let (r, rest) := repeated (.char c) rest
      readWritten fuel (g.add r) outer rest

-- The expression that a text is the written form of.
def expressionOfWritten? (s : List Char) : Option Regex :=
  readWritten s.length .start [] s

-- The expression of a pattern, read back from its written form.
def writtenExpression? (segments : List Segment) : Option Regex :=
  expressionOfWritten? (writtenSegments segments)

end Glob

end GraphqlArtifacts
