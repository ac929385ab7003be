-- Lines filled with words, as many as fit into a width.

namespace GraphqlArtifacts

-- Fills lines after one that was begun. A word that is too long stands on a line of its own.
def fillFrom (width : Nat) (line : String) : List String → List String
  | [] => [line]
  | word :: rest =>
    if line.length + 1 + word.length ≤ width then
      fillFrom width (line ++ " " ++ word) rest
    else
      line :: fillFrom width word rest

def fill (width : Nat) : List String → List String
  | [] => []
  | word :: rest => fillFrom width word rest

-- The words of a text between single spaces.
def wordsOf (text : String) : List String :=
  text.splitOn " "

def spaces (n : Nat) : String :=
  "".pushn ' ' n

end GraphqlArtifacts
