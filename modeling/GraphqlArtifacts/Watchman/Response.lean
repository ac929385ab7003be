import GraphqlArtifacts.Json.Reader
import GraphqlArtifacts.Text.CharClass
import GraphqlArtifacts.Text.Order
import GraphqlArtifacts.Text.Quoted

-- What the watch service answers: how its process ends, and the value in its output. A value that
-- holds an error is none.

namespace GraphqlArtifacts

-- How the process of one command ends.
inductive ProcessEnd
  | exited (code : Int) (output errors : String)
  | timedOut (words : List String) (seconds : Data)
  | notStarted (reason : String)
  deriving Repr

-- Why the service gives no answer.
inductive WatchmanError
  | notRun (reason : String)
  | exited (code : Int) (errors : String)
  | unreadable (e : Json.Error)
  | reported (text : String)
  deriving Repr

def WatchmanError.message : WatchmanError → String
  | .notRun reason => s!"unable to run watchman: {reason}"
  | .exited code errors => s!"watchman exited with {code}: {errors}"
  | .unreadable e => s!"unexpected watchman response: {e.message}"
  | .reported text => text

-- Why a command fails: there is no answer, or it is not a table with the keys that it should have.
-- A list and a text pass for a table until a key is looked up.
inductive WatchmanFault
  | service (e : WatchmanError)
  | missing (key : String)
  | notSearched (d : Data)
  | notKeyed (d : Data)
  | noFields (d : Data)
  | notListed (d : Data)
  deriving Repr

namespace WatchmanFault

def message : WatchmanFault → String
  | .service e => e.message
  | .missing key => quoted key
  | .notSearched d => s!"argument of type '{d.kindName}' is not iterable"
  | .notKeyed (.text _) => "string indices must be integers, not 'str'"
  | .notKeyed d => s!"{d.kindName} indices must be integers or slices, not str"
  | .noFields d => s!"'{d.kindName}' object has no attribute 'get'"
  | .notListed d => s!"'{d.kindName}' object is not iterable"

def kindName : WatchmanFault → String
  | .service _ => "WatchmanError"
  | .missing _ => "KeyError"
  | .noFields _ => "AttributeError"
  | .notSearched _ | .notKeyed _ | .notListed _ => "TypeError"

end WatchmanFault

namespace Watchman

-- The value under a key that must be there.
def required (key : String) (d : Data) : Except WatchmanFault Data :=
  match d with
  | .table entries =>
    match Data.lookup key entries with
    | some value => .ok value
    | none => .error (.missing key)
  | d => .error (.notKeyed d)

-- The value under a key that may be missing.
def optional (key : String) (d : Data) : Except WatchmanFault (Option Data) :=
  match d with
  | .table entries => .ok (Data.lookup key entries)
  | d => .error (.noFields d)

-- The names in a value, in order.
def names (d : Data) : Except WatchmanFault (List String) :=
  match d.items? with
  | some items => .ok (sortTexts (items.map Data.display))
  | none => .error (.notListed d)

def errorKey : String :=
  "error"

-- Whether a value speaks of an error.
def speaksOfError (d : Data) : Except WatchmanFault Bool :=
  match d with
  | .table entries => .ok (Data.lookup errorKey entries).isSome
  | .list items => .ok (items.any (Data.same (.text errorKey)))
  | .text s => .ok (holdsText errorKey.toList s.toList)
  | d => .error (.notSearched d)

-- The value, unless it holds an error.
def checked (d : Data) : Except WatchmanFault Data := do
  if ← speaksOfError d then
    throw (.service (.reported (← required errorKey d).display))
  return d

def trim (s : String) : String :=
  String.ofList (trimBlank s.toList)

-- The words of a command line, as a message shows them.
def shownWords (words : List String) : String :=
  (Data.list (words.map .text)).inner

-- The value that a process answers with. A process that fails may still answer.
def answerOf (e : ProcessEnd) : Except WatchmanFault Data :=
  match e with
  | .notStarted reason => .error (.service (.notRun reason))
  | .timedOut words seconds =>
    .error (.service (.notRun
      s!"Command '{shownWords words}' timed out after {seconds.display} seconds"))
  | .exited code output errors =>
    if code ≠ 0 ∧ trim output = "" then
      .error (.service (.exited code (trim errors)))
    else
      match Json.read output with
      | .error e => .error (.service (.unreadable e))
      | .ok d => checked d

end Watchman

end GraphqlArtifacts
