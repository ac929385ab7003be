-- The types that are generated, as Flow writes them: exact object types with one member a line, and
-- leaves whose text is taken as it is.

namespace GraphqlArtifacts

namespace Flow

-- What a member of an object type is for, and its key. The members for a response are read-only, as
-- are those that mark the fragments in it.
inductive MemberName
  | input (key : String) (isOptional : Bool)
  | response (key : String) (isOptional : Bool)
  | mark (key : String)
  deriving DecidableEq, Repr

def MemberName.text : MemberName → String
  | .input key isOptional => key ++ (if isOptional then "?" else "") ++ ": "
  | .response key isOptional => "+" ++ key ++ (if isOptional then "?" else "") ++ ": "
  | .mark key => "+$" ++ key ++ ": "

inductive Shape
  | leaf (text : String)
  | nullable (type : Shape)
  | array (item : Shape)
  | object (members : List (MemberName × Shape))
  deriving Repr, Inhabited

-- An exact object type with one member a line.
def objectText (lines : List String) (depth : Nat) : String :=
  let pad (n : Nat) : String := "".pushn ' ' (2 * n)
  if lines.isEmpty then
    "\x7b||\x7d"
  else
    "\x7b|\n" ++ String.join (lines.map fun line => pad (depth + 1) ++ line ++ ",\n") ++ pad depth ++
      "|\x7d"

namespace Shape

mutual

-- The text of a type inside of so many object types.
def print (depth : Nat) : Shape → String
  | .leaf text => text
  | .nullable type => "?" ++ type.print depth
  | .array item => "$ReadOnlyArray<" ++ item.print depth ++ ">"
  | .object members => objectText (printMembers (depth + 1) members) depth

def printMembers (depth : Nat) : List (MemberName × Shape) → List String
  | [] => []
  | (name, type) :: rest => (name.text ++ type.print depth) :: printMembers depth rest

end

end Shape

end Flow

end GraphqlArtifacts
