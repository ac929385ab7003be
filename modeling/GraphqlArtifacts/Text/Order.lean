-- The order of texts: by their characters, from the first one on.

namespace GraphqlArtifacts

-- Whether a list comes before another by the first items that differ. What a list starts with
-- comes before it.
def lexBefore [DecidableEq α] (before : α → α → Bool) : List α → List α → Bool
  | _, [] => false
  | [], _ :: _ => true
  | a :: as, b :: bs => if a = b then lexBefore before as bs else before a b

def charsBefore : List Char → List Char → Bool :=
  lexBefore fun a b => a.toNat < b.toNat

def textBefore (a b : String) : Bool :=
  charsBefore a.toList b.toList

-- Whether two texts are in order.
def inOrder (a b : String) : Bool :=
  !textBefore b a

def sortTexts (texts : List String) : List String :=
  texts.mergeSort inOrder

end GraphqlArtifacts
