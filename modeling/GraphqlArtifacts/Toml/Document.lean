import GraphqlArtifacts.Toml.Value

-- TOML documents, line by line: entries of the table last opened, and headers that open tables.
-- What was opened, or given as a whole, cannot be opened or changed again.

namespace GraphqlArtifacts

namespace Toml

-- What is known after some lines.
structure Progress where
  entries : List (String × Data)
  -- The table that entries go into.
  header : List String
  -- The tables that were opened by a header or, before it, by keys with parts.
  opened : List (List String)
  -- The tables that keys with parts opened since the last header.
  pending : List (List String)
  -- The keys that were given lists or tables as values.
  whole : List (List String)
  deriving Repr

namespace Progress

def start : Progress :=
  ⟨[], [], [], [], []⟩

-- All ways to a key in a table but the last part, the shortest first.
def waysTo (header key : List String) : List (List String) :=
  (List.range (key.length - 1)).map fun n => header ++ key.take (n + 1)

-- Adds an entry to the table last opened.
def addEntry (p : Progress) (key : List String) (d : Data) : Option Progress := do
  let ways := waysTo p.header key
  if ways.any p.opened.contains then none
  let full := p.header ++ key
  if isBelow p.whole full.dropLast then none
  let stem ← full.getLast?
  let entries ← inTable true (addNew stem d) full.dropLast p.entries
  return { p with
    entries
    pending := p.pending ++ ways
    whole := if isNested d then full :: p.whole else p.whole }

-- Tables that keys opened cannot be opened again after a header.
def settle (p : Progress) : Progress :=
  { p with opened := p.opened ++ p.pending, pending := [] }

-- Opens a table that was not opened before.
def openTable (p : Progress) (key : List String) : Option Progress := do
  if p.opened.contains key || isBelow p.whole key then none
  let entries ← inTable true some key p.entries
  return { p with entries, header := key, opened := key :: p.opened }

-- Appends a table to a list of tables.
def appendTable (key : String) (entries : List (String × Data)) :
    Option (List (String × Data)) :=
  match Data.lookup key entries with
  | none => some (entries ++ [(key, .list [.table []])])
  | some (.list items) => some (Data.insert key (.list (items ++ [.table []])) entries)
  | some _ => none

-- Opens a new table of a list of tables. What is below the list can be opened anew.
def openListed (p : Progress) (key : List String) : Option Progress := do
  if isBelow p.whole key then none
  let stem ← key.getLast?
  let entries ← inTable true (appendTable stem) key.dropLast p.entries
  return { p with
    entries
    header := key
    opened := key :: p.opened.filter (!key.isPrefixOf ·)
    whole := p.whole.filter (!key.isPrefixOf ·) }

end Progress

-- Reads a statement, which does not start with a space.
def readStatement (p : Progress) (s : List Char) : Option (Progress × List Char) := do
  match s with
  | '[' :: '[' :: rest => do
    let (key, rest) ← readKey (skipSpaces rest)
    let p ← p.settle.openListed key
    match rest with
    | ']' :: ']' :: rest => some (p, rest)
    | _ => none
  | '[' :: rest => do
    let (key, rest) ← readKey (skipSpaces rest)
    let p ← p.settle.openTable key
    match rest with
    | ']' :: rest => some (p, rest)
    | _ => none
  | '#' :: rest => some (p, '#' :: rest)
  | s => do
    let (key, rest) ← readKey s
    let ((), rest) ← readChar '=' rest
    let (d, rest) ← readValue s.length.succ (skipSpaces rest)
    some (← p.addEntry key d, rest)

-- Reads statements, one a line. The fuel bounds the number of lines.
def readLines : Nat → Progress → List Char → Option (List (String × Data))
  | 0, _, _ => none
  | fuel + 1, p, s =>
    match skipSpaces s with
    | [] => some p.entries
    | '\n' :: rest => readLines fuel p rest
    | s => do
      let (p, rest) ← readStatement p s
      match ← skipComment (skipSpaces rest) with
      | [] => some p.entries
      | '\n' :: rest => readLines fuel p rest
      | _ => none

-- A carriage return before a line feed does not count.
def dropReturns : List Char → List Char
  | '\r' :: '\n' :: rest => '\n' :: dropReturns rest
  | c :: rest => c :: dropReturns rest
  | [] => []

-- The table that a document holds, if it is well-formed.
def read (text : String) : Option Data :=
  let s := dropReturns text.toList
  (readLines s.length.succ Progress.start s).map .table

end Toml

end GraphqlArtifacts
