import GraphqlArtifacts.Data.Basic

-- Equality of values as they are written: numbers of different kinds and tables in different orders
-- are different values, unlike for `Data.same`.

namespace GraphqlArtifacts.Data

mutual

def isEqual : Data → Data → Bool
  | .null, .null             => true
  | .bool b, .bool b'        => b == b'
  | .int n, .int n'          => n == n'
  | .float x, .float x'      => x == x'
  | .text s, .text s'        => s == s'
  | .moment m, .moment m'    => m == m'
  | .list items, .list items' => areEqual items items'
  | .table entries, .table entries' => haveEqual entries entries'
  | _, _                     => false

def areEqual : List Data → List Data → Bool
  | [], []                   => true
  | d :: rest, d' :: rest'   => isEqual d d' && areEqual rest rest'
  | _, _                     => false

def haveEqual : List (String × Data) → List (String × Data) → Bool
  | [], []                   => true
  | (key, d) :: rest, (key', d') :: rest' => key == key' && isEqual d d' && haveEqual rest rest'
  | _, _                     => false

end

mutual

theorem isEqual_iff : (d d' : Data) → (isEqual d d' = true ↔ d = d')
  | .list items, d' => by cases d' <;> simp [isEqual, areEqual_iff items]
  | .table entries, d' => by cases d' <;> simp [isEqual, haveEqual_iff entries]
  | .null, d' | .bool _, d' | .int _, d' | .float _, d' | .text _, d' | .moment _, d' => by
    cases d' <;> simp [isEqual]

theorem areEqual_iff : (items items' : List Data) → (areEqual items items' = true ↔ items = items')
  | [], items' => by cases items' <;> simp [areEqual]
  | d :: rest, items' => by cases items' <;> simp [areEqual, isEqual_iff d, areEqual_iff rest]

theorem haveEqual_iff : (entries entries' : List (String × Data)) →
    (haveEqual entries entries' = true ↔ entries = entries')
  | [], entries' => by cases entries' <;> simp [haveEqual]
  | (key, d) :: rest, entries' => by
    cases entries' <;> simp [haveEqual, isEqual_iff d, haveEqual_iff rest, Prod.ext_iff]

end

instance : DecidableEq Data := fun d d' =>
  decidable_of_iff (isEqual d d' = true) (isEqual_iff d d')

end GraphqlArtifacts.Data
