import GraphqlArtifacts.Data.Moment
import GraphqlArtifacts.Number.Shortest
import GraphqlArtifacts.Text.Quoted

-- The values that JSON and TOML documents hold. Tables keep the order of their keys. `Data.text` is
-- the form in which messages show a value, `Data.same` the equality that ignores how a number is
-- written.

namespace GraphqlArtifacts

inductive Data
  | null
  | bool (b : Bool)
  | int (n : Int)
  | float (x : Binary64)
  | text (s : String)
  | moment (m : Moment)
  | list (items : List Data)
  | table (entries : List (String × Data))
  deriving Repr, Inhabited

namespace Data

-- The value of a key: a key occurs once, so the first entry is the only one.
def lookup (key : String) (entries : List (String × α)) : Option α :=
  (entries.find? (·.1 == key)).map (·.2)

-- Sets a key: a present key keeps its place, a new one goes to the end.
def insert (key : String) (value : α) : List (String × α) → List (String × α)
  | [] => [(key, value)]
  | (k, v) :: rest => if k == key then (k, value) :: rest else (k, v) :: insert key value rest

def get? (d : Data) (key : String) : Option Data :=
  match d with
  | .table entries => lookup key entries
  | _ => none

-- Zero, the empty text, the empty list, the empty table, `false` and `null` do not hold.
def holds : Data → Bool
  | .null => false
  | .bool b => b
  | .int n => n != 0
  | .float x => !x.isZero
  | .text s => s != ""
  | .moment _ => true
  | .list items => !items.isEmpty
  | .table entries => !entries.isEmpty

-- The items of a value, if it has any: the characters of a text, the keys of a table.
def items? : Data → Option (List Data)
  | .text s => some (s.toList.map fun c => .text (String.singleton c))
  | .list items => some items
  | .table entries => some (entries.map fun (key, _) => .text key)
  | _ => none

-- The name of a value's kind in messages.
def kindName : Data → String
  | .null => "NoneType"
  | .bool _ => "bool"
  | .int _ => "int"
  | .float _ => "float"
  | .text _ => "str"
  | .moment m => m.kindName
  | .list _ => "list"
  | .table _ => "dict"

mutual

-- The text of a value inside a list or a table.
def inner : Data → String
  | .null => "None"
  | .bool b => if b then "True" else "False"
  | .int n => toString n
  | .float x => x.text
  | .text s => quoted s
  | .moment m => m.callText
  | .list items => "[" ++ ", ".intercalate (innerItems items) ++ "]"
  | .table entries => "\x7b" ++ ", ".intercalate (innerEntries entries) ++ "\x7d"

def innerItems : List Data → List String
  | [] => []
  | d :: rest => inner d :: innerItems rest

def innerEntries : List (String × Data) → List String
  | [] => []
  | (key, d) :: rest => (quoted key ++ ": " ++ inner d) :: innerEntries rest

end

-- The text of a value on its own: texts and moments stand without quotes.
def display : Data → String
  | .text s => s
  | .moment m => m.text
  | d => d.inner

-- The integer that a number or truth value is equal to, if it is written as one.
def integer? : Data → Option Int
  | .bool b => some (if b then 1 else 0)
  | .int n => some n
  | _ => none

mutual

-- Equality of values. Numbers are compared by value, tables without regard to order.
def same : Data → Data → Bool
  | .null, .null => true
  | .text s, .text s' => s == s'
  | .moment m, .moment m' => m.same m'
  | .list items, .list items' => sameItems items items'
  | .table entries, .table entries' =>
    entries.length == entries'.length && sameEntries entries entries'
  | .float x, .float y => x.equals y
  | .float x, d => (d.integer?.map fun n => x.equalsInt n).getD false
  | d, .float y => (d.integer?.map fun n => y.equalsInt n).getD false
  | d, d' =>
    match d.integer?, d'.integer? with
    | some n, some n' => n == n'
    | _, _ => false

def sameItems : List Data → List Data → Bool
  | [], [] => true
  | d :: rest, d' :: rest' => same d d' && sameItems rest rest'
  | _, _ => false

-- Whether each entry of the first table has an equal value in the second.
def sameEntries : List (String × Data) → List (String × Data) → Bool
  | [], _ => true
  | (key, d) :: rest, entries' =>
    (match lookup key entries' with
      | some d' => same d d'
      | none => false) && sameEntries rest entries'

end

end Data

end GraphqlArtifacts
