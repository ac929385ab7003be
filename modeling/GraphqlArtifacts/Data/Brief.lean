import GraphqlArtifacts.Data.Basic

-- A short form of a value for messages: long texts and lists are cut in the middle, and what lies
-- deeper than two levels is left out.

namespace GraphqlArtifacts

namespace Data

-- The most characters of a text that are shown.
def briefTextSize : Nat := 240

-- The most items of a list that are shown.
def briefListSize : Nat := 10

def briefText (s : String) : String :=
  if briefTextSize < s.length then
    let first := (briefTextSize - 3) / 2
    let last := briefTextSize - 3 - first
    String.ofList (s.toList.take first ++ "...".toList ++ s.toList.drop (s.length - last))
  else
    s

-- The texts of some items, or of the first and last ones with dots between them.
def briefItems (shown : List String) : String :=
  let items :=
    if briefListSize < shown.length then
      let first := briefListSize / 2
      shown.take first ++ "..." :: shown.drop (shown.length - (first - 1))
    else
      shown
  ", ".intercalate items

mutual

-- The short form of a value inside so many others.
def briefAt (depth : Nat) : Data → String
  | .list [] => "[]"
  | .list items => if depth < 2 then "[" ++ briefItems (briefAll (depth + 1) items) ++ "]" else "[...]"
  | .table [] => "\x7b\x7d"
  | .table entries =>
    if depth < 2 then "\x7b" ++ briefItems (briefEntries (depth + 1) entries) ++ "\x7d"
    else "\x7b...\x7d"
  | .text s => briefText (quoted s)
  | .int n => briefText (toString n)
  | d => d.inner

def briefAll (depth : Nat) : List Data → List String
  | [] => []
  | d :: rest => briefAt depth d :: briefAll depth rest

def briefEntries (depth : Nat) : List (String × Data) → List String
  | [] => []
  | (key, d) :: rest =>
    (briefText (quoted key) ++ ": " ++ briefAt depth d) :: briefEntries depth rest

end

def brief (d : Data) : String :=
  d.briefAt 0

end Data

end GraphqlArtifacts
