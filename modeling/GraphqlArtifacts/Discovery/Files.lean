import GraphqlArtifacts.Discovery.IgnoreRule
import GraphqlArtifacts.Discovery.Search
import GraphqlArtifacts.Text.Order

-- The files of a set in a tree. Directories that are excluded, or hidden and not asked for, are not
-- entered.

namespace GraphqlArtifacts

-- Why a search for files fails.
inductive SearchFault
  | pattern (e : Glob.InvalidPattern)
  | ignoreRule (e : IgnoreFault)
  deriving DecidableEq, Repr

namespace SearchFault

def message : SearchFault → String
  | .pattern e => s!"invalid pattern: {e.pattern}"
  | .ignoreRule .invalidPattern => "invalid pattern in an ignore file"
  | .ignoreRule .emptyPattern => "string index out of range"

def kindName : SearchFault → String
  | .pattern _ | .ignoreRule .invalidPattern => "re.error"
  | .ignoreRule .emptyPattern => "IndexError"

end SearchFault

namespace Search

def pathText (parts : List String) : String :=
  "/".intercalate parts

def isHidden (name : String) : Bool :=
  name.startsWith "."

-- Whether a pattern spells out a hidden directory.
def asksForHidden (pattern : String) : Bool :=
  ((Glob.splitSlashes pattern.toList).dropLast).any fun segment =>
    segment.head? = some '.' && segment != ['.'] && segment != ['.', '.']

-- Whether the search goes into a directory, given by the names that lead to it.
def enters (s : Search) (parts : List String) : Except Glob.InvalidPattern Bool :=
  if isHidden (parts.getLast?.getD "") && !s.filePatterns.any asksForHidden then
    .ok false
  else
    (s.filter.excludesDirectory (pathText parts)).map (!·)

-- Whether the search reaches an entry: it goes into each directory on the way.
def reaches (s : Search) (parts : List String) : Except Glob.InvalidPattern Bool :=
  go (parts.length - 1) 1
where
  go : Nat → Nat → Except Glob.InvalidPattern Bool
    | 0, _ => .ok true
    | left + 1, n =>
      match s.enters (parts.take n) with
      | .ok true => go left (n + 1)
      | .ok false => .ok false
      | .error e => .error e

-- Whether an entry is reached and is a file of the set; of a directory, whether it is reached.
def selects (s : Search) (parts : List String) (e : Entry) : Except Glob.InvalidPattern Bool :=
  match s.reaches parts with
  | .ok true => if e.isFile then s.filter.accepts (pathText parts) else s.enters parts
  | r => r

end Search

namespace Tree

-- The entries below a directory, by their names from there.
def entriesBelow (t : Tree) (directory : List String) : List (List String × Entry) :=
  t.entries.filterMap fun (place, e) =>
    if directory.isPrefixOf place && place != directory then
      some (place.drop directory.length, e)
    else
      none

-- The ignore files below a directory. One that is no text has no rules.
def ignoreFiles (t : Tree) (directory : List String) : Except IgnoreFault (List IgnoreFile) :=
  (t.entriesBelow directory).foldrM
    (fun (parts, e) files =>
      match e with
      | .file content =>
        if parts.getLast? = some IgnoreFile.name then
          match Utf8.decodeFrom 0 content with
          | .ok text => do
            let lines := (Utf8.normalizeLineEnds text).splitOn '\n'
            let rules ← IgnoreFile.readRules lines
            return ⟨parts.dropLast, rules⟩ :: files
          | .error _ => return files
        else
          return files
      | .directory => return files)
    []

end Tree

-- Whether one of the ignore files above a path ignores it.
def isIgnored (files : List IgnoreFile) (parts : List String) : Except IgnoreFault Bool :=
  anyOrFault
    (fun file => file.ignores (Search.pathText (parts.drop file.directory.length)).toList)
    (files.filter fun file => file.directory.isPrefixOf parts)

-- The files of a set below a base directory, in the order of their paths.
def findFiles (t : Tree) (base : Path) (s : Search) (respectIgnoreFiles : Bool) :
    Except SearchFault (List String) := do
  match t.walk [] base.parts with
  | .error _ => return []
  | .ok place =>
    if t.get? place != some .directory then return []
    let ignoreFiles ←
      if respectIgnoreFiles then (t.ignoreFiles place).mapError .ignoreRule else pure []
    let found ← (t.entriesBelow place).filterMapM fun (parts, e) => do
      let selected ← (s.selects parts e).mapError .pattern
      if selected && e.isFile then
        let ignored ← (isIgnored ignoreFiles parts).mapError .ignoreRule
        return if ignored then none else some (Search.pathText parts)
      else
        return none
    return sortTexts found

end GraphqlArtifacts
