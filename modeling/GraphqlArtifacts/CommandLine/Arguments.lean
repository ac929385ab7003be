import GraphqlArtifacts.CommandLine.Flag
import GraphqlArtifacts.Config.Settings
import GraphqlArtifacts.Text.CharClass
import GraphqlArtifacts.Text.Quoted

-- The words of a command line: flags, each with the values after it, and what they ask for. A flag
-- may be cut short as long as one flag alone starts with what is left. Nothing is asked for twice:
-- a later value of a flag takes the place of an earlier one, but custom scalars add up.

namespace GraphqlArtifacts

namespace CommandLine

-- Why a command line is refused.
inductive UsageFault
  | ambiguous (word : String) (matching : List String)
  | unrecognized (words : List String)
  | needsOne (flag : Flag)
  | needsSeveral (flag : Flag)
  | takesNone (flag : Flag) (value : String)
  | notScalar (flag : Flag) (value : String)
  deriving DecidableEq, Repr

def UsageFault.message : UsageFault → String
  | .ambiguous word matching =>
    s!"ambiguous option: {word} could match " ++ ", ".intercalate matching
  | .unrecognized words => "unrecognized arguments: " ++ " ".intercalate words
  | .needsOne flag => s!"argument {flag.title}: expected one argument"
  | .needsSeveral flag => s!"argument {flag.title}: expected at least one argument"
  | .takesNone flag value =>
    s!"argument {flag.title}: ignored explicit argument {quoted value}"
  | .notScalar flag value => s!"argument {flag.title}: expected NAME=TYPE, got '{value}'"

-- Words

-- What a word is on its own.
inductive Word
  | value (s : String)
  -- A flag, and the value that is part of its word.
  | flag (f : Flag) (attached : Option String)
  | unknown (s : String)
  deriving DecidableEq, Repr

-- The parts of a text before and after its first sign of equality.
def cutAtEquals (s : List Char) : List Char × Option (List Char) :=
  match s.span (· != '=') with
  | (before, _ :: after) => (before, some after)
  | (before, []) => (before, none)

-- Whether a word is a negative number, which is a value.
def isNegativeNumber (s : List Char) : Bool :=
  let areDigits (s : List Char) : Bool := s != [] && s.all fun c => (decimalValue? c).isSome
  -- A line feed at the end does not count.
  let s := if s.getLast? = some '\n' then s.dropLast else s
  match s with
  | '-' :: rest =>
    match rest.span (· != '.') with
    | (whole, []) => areDigits whole
    | (whole, _ :: decimals) => (whole == [] || areDigits whole) && areDigits decimals
  | _ => false

-- What is attached to a spelling. A flag of one letter may be repeated in one word.
def attachedTo (spelling value : List Char) : Option String :=
  match spelling with
  | ['-', letter] =>
    let left := value.dropWhile (· == letter)
    if value ≠ [] ∧ left = [] then none else some (String.ofList left)
  | _ => some (String.ofList value)

-- The flags that a word may stand for, each with its spelling and the attached value.
def candidates (word : List Char) : List (String × Flag × Option String) :=
  match word with
  | '-' :: '-' :: _ =>
    let (start, after) := cutAtEquals word
    (Flag.spelled.filter fun (spelling, _) => start.isPrefixOf spelling.toList).map
      fun (spelling, flag) => (spelling, flag, after.map String.ofList)
  | '-' :: letter :: after =>
    (Flag.spelled.filter fun (spelling, _) => spelling.toList == ['-', letter]).map
      fun (spelling, flag) => (spelling, flag, attachedTo ['-', letter] after)
  | _ => []

def readWord (s : String) : Except UsageFault Word :=
  let word := s.toList
  if word.head? ≠ some '-' then
    .ok (.value s)
  else
    match Flag.ofSpelling? s with
    | some flag => .ok (.flag flag none)
    | none =>
      if word.length = 1 then
        .ok (.value s)
      else
        let (start, after) := cutAtEquals word
        match after, Flag.ofSpelling? (String.ofList start) with
        | some value, some flag => .ok (.flag flag (attachedTo start value))
        | _, _ =>
          match candidates word with
          | [(_, flag, attached)] => .ok (.flag flag attached)
          | [] => .ok (if isNegativeNumber word || word.contains ' ' then .value s else .unknown s)
          | several => .error (.ambiguous s (several.map (·.1)))

-- Groups

-- What starts a group of words: a flag, or a word that no flag takes.
inductive Head
  | flag (f : Flag) (attached : Option String)
  | stray (s : String)
  deriving DecidableEq, Repr

-- The first word of a group and the values after it.
structure Group where
  head : Head
  values : List String
  deriving DecidableEq, Repr

-- The values before the first group, and the groups. After two dashes all words are values, and
-- no flag takes them.
def readGroups : List String → Except UsageFault (List String × List Group)
  | [] => .ok ([], [])
  | s :: rest =>
    if s = "--" then
      .ok ([], [⟨.stray s, rest⟩])
    else do
      let word ← readWord s
      let (values, groups) ← readGroups rest
      match word with
      | .value s => return (s :: values, groups)
      | .flag f attached => return ([], ⟨.flag f attached, values⟩ :: groups)
      | .unknown s => return ([], ⟨.stray s, values⟩ :: groups)

-- Arguments

structure Arguments where
  debug : Bool
  -- The options that are set, in order.
  values : List (OptionName × Data)
  scalars : List (String × String)
  deriving Repr

-- What a command line asks for.
inductive Request
  | run (a : Arguments)
  | help
  | version
  deriving Repr

namespace Arguments

def none : Arguments :=
  ⟨false, [], []⟩

def set (a : Arguments) (name : OptionName) (value : Data) : Arguments :=
  { a with values := a.values ++ [(name, value)] }

-- The settings with what the arguments set.
def overlay (a : Arguments) (s : Settings) : Settings :=
  let s := s.setAll a.values
  match a.scalars, s .customScalars with
  | [], _ => s
  | scalars, .table entries =>
    s.set .customScalars (.table (scalars.foldl
      (fun entries (name, type) => Data.insert name (.text type) entries) entries))
  | _, _ => s

end Arguments

-- The name and the type of a custom scalar.
def readScalar? (s : String) : Option (String × String) :=
  match cutAtEquals s.toList with
  | (name, some type) =>
    if name = [] ∨ type = [] then none else some (String.ofList name, String.ofList type)
  | (_, none) => none

-- The one value of a flag, and the values that it leaves.
def takeOne (flag : Flag) (attached : Option String) (values : List String) :
    Except UsageFault (String × List String) :=
  match attached, values with
  | some value, values => .ok (value, values)
  | none, value :: rest => .ok (value, rest)
  | none, [] => .error (.needsOne flag)

-- The values of a flag, and those that it leaves.
def takeSeveral (flag : Flag) (attached : Option String) (values : List String) :
    Except UsageFault (List String × List String) :=
  match attached, values with
  | some value, values => .ok ([value], values)
  | none, [] => .error (.needsSeveral flag)
  | none, values => .ok (values, [])

def checkAttached (flag : Flag) : Option String → Except UsageFault Unit
  | none => .ok ()
  | some value => .error (.takesNone flag value)

-- Follows groups after the arguments and stray words before them.
def follow (a : Arguments) (strays : List String) : List Group → Except UsageFault Request
  | [] => if strays = [] then .ok (.run a) else .error (.unrecognized strays)
  | ⟨.stray s, values⟩ :: rest => follow a (strays ++ s :: values) rest
  | ⟨.flag flag attached, values⟩ :: rest =>
    match flag.effect with
    | .one name => do
      let (value, left) ← takeOne flag attached values
      follow (a.set name (.text value)) (strays ++ left) rest
    | .several name => do
      let (taken, left) ← takeSeveral flag attached values
      follow (a.set name (Settings.ofTexts taken)) (strays ++ left) rest
    | .scalar => do
      let (value, left) ← takeOne flag attached values
      match readScalar? value with
      | some pair => follow { a with scalars := a.scalars ++ [pair] } (strays ++ left) rest
      | none => .error (.notScalar flag value)
    | .switch name on => do
      checkAttached flag attached
      follow (a.set name (.bool on)) (strays ++ values) rest
    | .debug => do
      checkAttached flag attached
      follow { a with debug := true } (strays ++ values) rest
    | .help => do
      checkAttached flag attached
      return .help
    | .version => do
      checkAttached flag attached
      return .version

-- What a command line asks for.
def read (words : List String) : Except UsageFault Request := do
  let (strays, groups) ← readGroups words
  follow Arguments.none strays groups

end CommandLine

end GraphqlArtifacts
