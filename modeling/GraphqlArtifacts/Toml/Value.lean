import GraphqlArtifacts.Toml.Lexeme

-- Values of TOML documents: scalars, arrays and tables on one line. A key of such a table may have
-- parts, but what a key was given as a whole cannot get further parts.

namespace GraphqlArtifacts

namespace Toml

-- Changes the table at the end of a path of keys. Tables on the way that are not there are made;
-- the last table of a list of tables stands for the list, if lists may be entered.
def inTable (enterLists : Bool)
    (change : List (String × Data) → Option (List (String × Data))) :
    List String → List (String × Data) → Option (List (String × Data))
  | [], entries => change entries
  | key :: path, entries => do
    match Data.lookup key entries with
    | none => return Data.insert key (.table (← inTable enterLists change path [])) entries
    | some (.table inner) =>
      return Data.insert key (.table (← inTable enterLists change path inner)) entries
    | some (.list items) =>
      match enterLists, items.getLast? with
      | true, some (.table inner) =>
        let inner ← inTable enterLists change path inner
        return Data.insert key (.list (items.dropLast ++ [.table inner])) entries
      | _, _ => none
    | some _ => none

-- Adds a value under a new key.
def addNew (key : String) (d : Data) (entries : List (String × Data)) :
    Option (List (String × Data)) :=
  if (Data.lookup key entries).isSome then none else some (entries ++ [(key, d)])

-- Whether a value is a list or a table.
def isNested : Data → Bool
  | .list _ | .table _ => true
  | _ => false

-- Whether one of some paths leads to a key or to something that it lies in.
def isBelow (paths : List (List String)) (key : List String) : Bool :=
  paths.any (·.isPrefixOf key)

-- A date, a time or a number.
def readPlain (s : List Char) : Option (Data × List Char) :=
  match readDateTime s with
  | some (m, rest) => if isInCalendar m then some (.moment m, rest) else none
  | none =>
    match readTime s with
    | some (t, rest) => some (.moment (.time t), rest)
    | none =>
      match readBased s with
      | some (n, rest) => some (.int n, rest)
      | none => (readDecimal s).orElse fun _ => readSpecialFloat s

mutual

-- A value. The fuel bounds its length.
def readValue : Nat → List Char → Option (Data × List Char)
  | 0, _ => none
  | fuel + 1, s =>
    match s with
    | '"' :: _ | '\'' :: _ => (readString s).map fun (text, r) => (.text text, r)
    | 't' :: 'r' :: 'u' :: 'e' :: rest => some (.bool true, rest)
    | 'f' :: 'a' :: 'l' :: 's' :: 'e' :: rest => some (.bool false, rest)
    | '[' :: rest => (readItems fuel [] rest).map fun (items, r) => (.list items, r)
    | '{' :: rest =>
      match skipSpaces rest with
      | '}' :: more => some (.table [], more)
      | rest => (readEntries fuel [] [] rest).map fun (entries, r) => (.table entries, r)
    | s => readPlain s

-- Further items of an array, after those read.
def readItems : Nat → List Data → List Char → Option (List Data × List Char)
  | 0, _, _ => none
  | fuel + 1, items, s => do
    match ← skipBlank s.length s with
    | ']' :: rest => some (items, rest)
    | s => do
      let (item, rest) ← readValue fuel s
      let items := items ++ [item]
      match ← skipBlank rest.length rest with
      | ']' :: rest => some (items, rest)
      | ',' :: rest => readItems fuel items rest
      | _ => none

-- Further entries of a table on one line, after those read and those given as a whole.
def readEntries : Nat → List (List String) → List (String × Data) → List Char →
    Option (List (String × Data) × List Char)
  | 0, _, _, _ => none
  | fuel + 1, whole, entries, s => do
    let (key, rest) ← readKey s
    let ((), rest) ← readChar '=' rest
    let (d, rest) ← readValue fuel (skipSpaces rest)
    if isBelow whole key then none
    let stem ← key.getLast?
    let entries ← inTable false (addNew stem d) key.dropLast entries
    match skipSpaces rest with
    | '}' :: rest => some (entries, rest)
    | ',' :: rest =>
      readEntries fuel (if isNested d then key :: whole else whole) entries (skipSpaces rest)
    | _ => none

end

end Toml

end GraphqlArtifacts
