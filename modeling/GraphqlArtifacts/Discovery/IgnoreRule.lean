import GraphqlArtifacts.Files.Tree
import GraphqlArtifacts.Glob.Written
import GraphqlArtifacts.Text.CharClass

-- Rules of ignore files. A rule has a pattern, and applies to paths relative to the directory of
-- its file. Of the rules in one file the last that matches decides.

namespace GraphqlArtifacts

-- A rule. If it is anchored it matches from the directory of its file, else after any slash.
structure IgnoreRule where
  negated : Bool
  directoriesOnly : Bool
  anchored : Bool
  expression : Option Regex
  deriving Repr

-- Why a rule cannot be read or applied.
inductive IgnoreFault
  | emptyPattern
  | invalidPattern
  deriving DecidableEq, Repr

namespace IgnoreRule

-- How many stars are left of a run of them: two only if they stand between slashes or ends.
def keptStars (stars : Nat) (before after : Option Char) : Nat :=
  let isEnd (c : Option Char) : Bool := c = none || c = some '/'
  if stars ≤ 1 then stars
  else if isEnd before && isEnd after then 2
  else 1

-- The pattern with its runs of stars shortened, after some stars that were already read.
def mergeStars (before : Option Char) (stars : Nat) : List Char → List Char
  | [] => List.replicate (keptStars stars before none) '*'
  | c :: rest =>
    if c = '*' then
      mergeStars before (stars + 1) rest
    else
      List.replicate (keptStars stars before (some c)) '*' ++ c :: mergeStars (some c) 0 rest

def dropSlash : List Char → List Char
  | '/' :: rest => rest
  | s => s

-- A pattern without the spaces at its end, unless a backslash stands before one.
-- Looks at the character at place `i`, from the last one down to the third.
def trimSpacesAt : Nat → Bool → Nat → List Char → List Char
  | 0, _, _, s => s
  | fuel + 1, cut, i, s =>
    if 1 < i ∧ s[i]? = some ' ' then
      if s[i - 1]? = some '\\' then
        trimSpacesAt fuel false (i - 2) (s.take (i - 1) ++ s.drop i)
      else
        trimSpacesAt fuel cut (i - 1) (if cut then s.take i else s)
    else
      s

def trimSpaces (s : List Char) : List Char :=
  trimSpacesAt s.length true (s.length - 1) s

-- What is inside a class whose bracket was just read, and what follows the class.
def splitClass (s : List Char) : Option (List Char × List Char) :=
  let (bang, s) := match s with
    | '!' :: rest => (['!'], rest)
    | s => ([], s)
  let (bracket, s) := match s with
    | ']' :: rest => ([']'], rest)
    | s => ([], s)
  match s.span (· != ']') with
  | (_, []) => none
  | (body, _ :: rest) => some (bang ++ bracket ++ body, rest)

-- The written form of a class. A slash never is in it, and a leading `^` stands for itself.
def writtenClass (body : List Char) : Except IgnoreFault (List Char) :=
  let escaped := body.flatMap fun c =>
    if c = '\\' then ['\\', '\\'] else if c = '/' then [] else [c]
  match escaped with
  | [] => .error .emptyPattern
  | '!' :: rest => .ok ('[' :: '^' :: rest ++ [']'])
  | '^' :: rest => .ok ('[' :: '\\' :: '^' :: rest ++ [']'])
  | s => .ok ('[' :: s ++ [']'])

-- The written form of a pattern. The fuel bounds its length.
def writtenPattern : Nat → List Char → Except IgnoreFault (List Char)
  | 0, _ => .ok []
  | _, [] => .ok []
  | fuel + 1, '*' :: '*' :: '/' :: rest =>
    (writtenPattern fuel rest).map ("(?:.*\\/)?".toList ++ ·)
  | fuel + 1, '*' :: '*' :: rest => (writtenPattern fuel rest).map (".*".toList ++ ·)
  | fuel + 1, '*' :: rest => (writtenPattern fuel rest).map ("[^/]*".toList ++ ·)
  | fuel + 1, '?' :: rest => (writtenPattern fuel rest).map ("[^/]".toList ++ ·)
  | fuel + 1, '[' :: rest =>
    match splitClass rest with
    | none => (writtenPattern fuel rest).map (Glob.writtenChar '[' ++ ·)
    | some (body, rest) => do
      let first ← writtenClass body
      let last ← writtenPattern fuel rest
      return first ++ last
  | fuel + 1, c :: rest => (writtenPattern fuel rest).map (Glob.writtenChar c ++ ·)

-- The pattern without the slashes and stars at its ends, and whether it is anchored.
def stripEnds (s : List Char) : Except IgnoreFault (List Char × Bool) := do
  if s = [] then throw .emptyPattern
  let (s, anchored) := match dropSlash s with
    | '*' :: '*' :: rest => (rest, false)
    | rest => (rest, s.dropLast.contains '/')
  if s = [] then throw .emptyPattern
  let s := dropSlash s
  let s := if s.getLast? = some '/' then s.dropLast else s
  match s with
  | [] => throw .emptyPattern
  | ['\\'] => throw .emptyPattern
  | '\\' :: '#' :: rest => return ('#' :: rest, anchored)
  | '\\' :: '!' :: rest => return ('!' :: rest, anchored)
  | s => return (s, anchored)

-- The rule on a line. Blank lines and comments have none.
def ofLine? (line : List Char) : Except IgnoreFault (Option IgnoreRule) := do
  if line.all isBlank || line.head? = some '#' then return none
  let (negated, s) := match line with
    | '!' :: rest => (true, rest)
    | s => (false, s)
  let s := mergeStars none 0 s
  if (s.reverse.dropWhile isBlank) = ['/'] then return none
  let (pattern, anchored) ← stripEnds s
  let pattern := trimSpaces pattern
  let written ← writtenPattern pattern.length pattern
  return some
    { negated
      directoriesOnly := s.getLast? = some '/'
      anchored
      expression := Glob.expressionOfWritten? written }

-- Whether a match may end before the rest of a path.
def endsBefore (rule : IgnoreRule) (rest : List Char) : Bool :=
  let atEnd (s : List Char) := s = [] || s = ['\n']
  if !rule.directoriesOnly then atEnd rest
  else if rule.negated then rest.head? = some '/' && atEnd rest.tail
  else atEnd rest || rest.head? = some '/'

-- The parts of a path that start after a slash.
def afterSlashes : List Char → List (List Char)
  | [] => []
  | c :: rest => if c = '/' then rest :: afterSlashes rest else afterSlashes rest

def matchesPath (rule : IgnoreRule) (path : List Char) : Except IgnoreFault Bool :=
  match rule.expression with
  | none => .error .invalidPattern
  | some r =>
    let starts := path :: (if rule.anchored then [] else afterSlashes path)
    .ok (starts.any fun s => (r.ends s).any rule.endsBefore)

end IgnoreRule

-- An ignore file: the directory that it is in, from the root of the search, and its rules.
structure IgnoreFile where
  directory : List String
  rules : List IgnoreRule
  deriving Repr

namespace IgnoreFile

def name : String := ".gitignore"

-- The rules on the lines of a text.
def readRules : List (List Char) → Except IgnoreFault (List IgnoreRule)
  | [] => .ok []
  | line :: rest => do
    let rule ← IgnoreRule.ofLine? line
    let rules ← readRules rest
    return rule.toList ++ rules

-- Whether a file ignores a path below its directory.
def ignores (file : IgnoreFile) (path : List Char) : Except IgnoreFault Bool :=
  go file.rules.reverse
where
  -- The rules from the last to the first. The first that matches decides.
  go : List IgnoreRule → Except IgnoreFault Bool
    | [] => .ok false
    | rule :: rest => do
      if ← rule.matchesPath path then return !rule.negated else go rest

end IgnoreFile

end GraphqlArtifacts
