import GraphqlArtifacts.Glob.Pattern
import GraphqlArtifacts.Text.Order

-- Paths: a root and the names below it. Empty names and single dots are dropped when a path is
-- read; double dots stay until the path is normalized.

namespace GraphqlArtifacts

-- A path. Its root is empty for a relative path, else one slash, or two where it was written so.
structure Path where
  root : String
  parts : List String
  deriving DecidableEq, Repr, Inhabited

namespace Path

def rootOf : List Char → String
  | '/' :: '/' :: '/' :: _ => "/"
  | '/' :: '/' :: _ => "//"
  | '/' :: _ => "/"
  | _ => ""

def partsOf (s : List Char) : List String :=
  ((Glob.splitSlashes s).filter fun part => part ≠ [] ∧ part ≠ ['.']).map String.ofList

def ofText (s : String) : Path :=
  ⟨rootOf s.toList, partsOf s.toList⟩

def isAbsolute (p : Path) : Bool :=
  p.root != ""

-- The text of a path; the empty relative path is a single dot.
def text (p : Path) : String :=
  if p.root = "" ∧ p.parts = [] then "." else p.root ++ "/".intercalate p.parts

-- A path below a directory; an absolute path stays as it is.
def join (p : Path) (s : String) : Path :=
  let q := ofText s
  if q.isAbsolute then q else ⟨p.root, p.parts ++ q.parts⟩

-- The path of a name directly in a directory.
def child (p : Path) (name : String) : Path :=
  ⟨p.root, p.parts ++ [name]⟩

def parent (p : Path) : Path :=
  ⟨p.root, p.parts.dropLast⟩

def name (p : Path) : String :=
  p.parts.getLast?.getD ""

-- The end of a name from its last dot, unless that is the first or last character.
def suffixOf (name : String) : String :=
  let tail := name.toList.reverse.takeWhile (· != '.')
  let dots := name.length - tail.length
  if tail.isEmpty || dots ≤ 1 then "" else String.ofList ('.' :: tail.reverse)

def suffix (p : Path) : String :=
  suffixOf p.name

def stem (p : Path) : String :=
  String.ofList (p.name.toList.take (p.name.length - p.suffix.length))

-- The names that are left when each double dot takes back the name before it.
def foldParents (parts : List String) : List String :=
  parts.foldl (fun done part => if part = ".." then done.dropLast else done ++ [part]) []

-- A path without double dots; the root of an absolute one is a single slash.
def normalize (p : Path) : Path :=
  ⟨if p.root = "" then "" else "/", foldParents p.parts⟩

-- The names of a path that lies below a directory, from there.
def below? (directory p : Path) : Option (List String) :=
  if directory.root = p.root ∧ directory.parts.isPrefixOf p.parts then
    some (p.parts.drop directory.parts.length)
  else
    none

-- What two lists start with alike.
def commonLength : List String → List String → Nat
  | a :: as, b :: bs => if a = b then commonLength as bs + 1 else 0
  | _, _ => 0

-- The way from one absolute path to another.
def relativeTo (p start : Path) : Path :=
  let origin := foldParents start.parts
  let target := foldParents p.parts
  let n := commonLength origin target
  ⟨"", List.replicate (origin.length - n) ".." ++ target.drop n⟩

-- The order of names, as lists of texts.
def le (p q : Path) : Bool :=
  !lexBefore textBefore (q.root :: q.parts) (p.root :: p.parts)

end Path

end GraphqlArtifacts
