import GraphqlArtifacts.Glob.Regex

-- Glob patterns. A pattern is cut into segments at slashes. A segment is a sequence of pieces:
-- plain characters, the wildcards `*` and `?`, bracketed sets, and groups of alternatives. A
-- wildcard or set at the start of a segment never matches a leading dot.

namespace GraphqlArtifacts

namespace Glob

-- How often a group of alternatives occurs.
inductive Quantifier
  | once
  | optional
  | anyNumber
  | atLeastOnce
  deriving DecidableEq, Repr

-- The sign before the parenthesis of a group.
def Quantifier.ofSign? : Char → Option Quantifier
  | '@' => some .once
  | '?' => some .optional
  | '*' => some .anyNumber
  | '+' => some .atLeastOnce
  | _ => none

-- A piece of a segment. A guarded piece does not match a leading dot.
inductive Piece
  | char (c : Char)
  | anyChar (guarded : Bool)
  | anyRun (guarded : Bool)
  | set (guarded : Bool) (body : List Char)
  | group (quantifier : Quantifier) (alternatives : List (List Piece))
  deriving Repr

inductive Segment
  | anyDepth
  | pieces (ps : List Piece)
  deriving Repr

-- What is inside a bracket whose opening was just read, and what follows its closing.
def splitClosing (opening closing : Char) : Nat → List Char → Option (List Char × List Char)
  | _, [] => none
  | depth, c :: rest =>
    if c = opening then
      (splitClosing opening closing (depth + 1) rest).map fun (i, r) => (c :: i, r)
    else if c = closing then
      match depth with
      | 0 => some ([], rest)
      | depth + 1 => (splitClosing opening closing depth rest).map fun (i, r) => (c :: i, r)
    else
      (splitClosing opening closing depth rest).map fun (i, r) => (c :: i, r)

def depthAfter (depth : Int) (c : Char) : Int :=
  if c ∈ ['(', '{', '['] then depth + 1
  else if c ∈ [')', '}', ']'] then depth - 1
  else depth

-- Cuts a text at the separators that stand outside of all brackets.
def splitTopLevel (separator : Char) : Int → List Char → List (List Char)
  | _, [] => [[]]
  | depth, c :: rest =>
    let depth := depthAfter depth c
    if c = separator ∧ depth = 0 then
      [] :: splitTopLevel separator depth rest
    else
      match splitTopLevel separator depth rest with
      | [] => [[c]]
      | part :: parts => (c :: part) :: parts

-- The body of a set whose bracket was just read, and what follows it. A set is never empty.
def splitSet : List Char → Option (List Char × List Char)
  | [] => none
  | c :: rest =>
    match rest.span (· != ']') with
    | (_, []) => none
    | (body, _ :: after) => some (c :: body, after)

-- The pieces of a segment. The fuel bounds its length.
-- A bracket without its closing is a plain character, and so is a sign that opens no group.
def readPieces : Nat → Bool → List Char → List Piece
  | 0, _, _ => []
  | _, _, [] => []
  | fuel + 1, leading, c :: rest =>
    let alternatives (separator : Char) (inside : List Char) :=
      (splitTopLevel separator 0 inside).map (readPieces fuel leading)
    let group : Option (Quantifier × List Char × List Char) :=
      match Quantifier.ofSign? c, rest with
      | some q, '(' :: r => (splitClosing '(' ')' 0 r).map (q, ·)
      | _, _ => none
    match group with
    | some (q, inside, after) =>
      .group q (alternatives '|' inside) :: readPieces fuel false after
    | none =>
      let braces := if c = '{' then splitClosing '{' '}' 0 rest else none
      match braces with
      | some (inside, after) =>
        .group .once (alternatives ',' inside) :: readPieces fuel false after
      | none =>
        let set := if c = '[' then splitSet rest else none
        match set with
        | some (body, after) => .set leading body :: readPieces fuel false after
        | none =>
          let piece : Piece :=
            if c = '*' then .anyRun leading
            else if c = '?' then .anyChar leading
            else .char c
          piece :: readPieces fuel false rest

def Segment.ofText (s : List Char) : Segment :=
  if s = ['*', '*'] then .anyDepth else .pieces (readPieces s.length true s)

-- The parts of a text between slashes.
def splitSlashes : List Char → List (List Char)
  | [] => [[]]
  | c :: rest =>
    if c = '/' then
      [] :: splitSlashes rest
    else
      match splitSlashes rest with
      | [] => [[c]]
      | part :: parts => (c :: part) :: parts

-- A pattern without the `./` that it may start with.
def dropDotSlash : List Char → List Char
  | '.' :: '/' :: rest => rest
  | s => s

end Glob

open Glob in
def Glob.segments (pattern : List Char) : List Segment :=
  (splitSlashes (dropDotSlash pattern)).map Segment.ofText

end GraphqlArtifacts
