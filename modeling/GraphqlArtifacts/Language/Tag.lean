import GraphqlArtifacts.Text.CharClass

-- Documents embedded in a source file: the word `graphql`, perhaps blanks, and a template between
-- two backticks.

namespace GraphqlArtifacts

-- A document embedded in a source file, and the line of its word, counted from one.
structure Tag where
  line : Nat
  template : String
  deriving DecidableEq, Repr

namespace Tag

def word : List Char :=
  "graphql".toList

def mark : Char := '\x60'

-- A template and the number of characters up to its end, for a text that starts with a tag.
def read? (s : List Char) : Option (List Char × Nat) :=
  if word.isPrefixOf s then
    let blanks := (s.drop word.length).takeWhile isBlank
    match s.drop (word.length + blanks.length) with
    | [] => none
    | c :: rest =>
      let template := rest.takeWhile (· != mark)
      if c = mark ∧ template.length < rest.length then
        some (template, word.length + blanks.length + template.length + 2)
      else
        none
  else
    none

-- The tags of the rest of a text. So many of its characters belong to a tag already found; the
-- word of a tag never continues another word.
def findFrom (covered : Nat) (afterWord : Bool) (line : Nat) : List Char → List Tag
  | [] => []
  | c :: rest =>
    let next := if c = '\n' then line + 1 else line
    match covered with
    | n + 1 => findFrom n (isWordChar c) next rest
    | 0 =>
      match if afterWord then none else read? (c :: rest) with
      | some (template, size) =>
        ⟨line, String.ofList template⟩ :: findFrom (size - 1) (isWordChar c) next rest
      | none => findFrom 0 (isWordChar c) next rest

-- The tags of a text, in order. They do not overlap.
def findAll (text : String) : List Tag :=
  findFrom 0 false 1 text.toList

end Tag

end GraphqlArtifacts
