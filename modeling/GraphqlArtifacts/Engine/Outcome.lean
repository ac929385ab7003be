-- Outcomes of writing, and the exit code of a run.

namespace GraphqlArtifacts

inductive Outcome
  | hasChanges
  | noChanges
  | error
  deriving DecidableEq, Repr

namespace Outcome

def name : Outcome → String
  | hasChanges => "HAS_CHANGES"
  | noChanges => "NO_CHANGES"
  | error => "ERROR"

def ofName? (s : String) : Option Outcome :=
  [hasChanges, noChanges, error].find? (·.name == s)

-- An error wins over changes, and changes over none.
def combine (outcomes : List Outcome) : Outcome :=
  if error ∈ outcomes then error
  else if hasChanges ∈ outcomes then hasChanges
  else noChanges

-- The exit code of a run. Changes that are only pending are a failure of validation.
def exitCode (validate : Bool) : Outcome → Nat
  | error => 100
  | hasChanges => if validate then 101 else 0
  | noChanges => 0

end Outcome

end GraphqlArtifacts
