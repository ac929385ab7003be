import GraphqlArtifacts.Config.File

-- Settings read as what a run needs. Settings from files may have values of any kind, so a value is
-- checked where it is used.

namespace GraphqlArtifacts

-- Why a value of a setting cannot be used.
inductive SettingFault
  | notPath (d : Data)
  | notList (d : Data)
  | notFurther (d : Data)
  | notText (index : Nat) (d : Data)
  | notName (d : Data)
  | notInterval (d : Data)
  | scalars (e : ConfigFault)
  deriving Repr

namespace SettingFault

-- The name of a kind without that of its module.
def shortName (kindName : String) : String :=
  (kindName.splitOn ".").getLastD ""

def message : SettingFault → String
  | .notPath d => s!"expected str, bytes or os.PathLike object, not {shortName d.kindName}"
  | .notList d => s!"'{d.kindName}' object is not iterable"
  | .notFurther d => s!"Value after * must be an iterable, not {d.kindName}"
  | .notText index d => s!"sequence item {index}: expected str instance, {d.kindName} found"
  | .notName d => s!"unhashable type: '{d.kindName}'"
  | .notInterval d => s!"unsupported operand type(s) for /: '{d.kindName}' and 'int'"
  | .scalars e => e.message

def kindName : SettingFault → String
  | .scalars e => e.kindName
  | _ => "TypeError"

end SettingFault

namespace Settings

def isOn (s : Settings) (name : OptionName) : Bool :=
  (s name).holds

def pathText : Data → Except SettingFault String
  | .text s => .ok s
  | d => .error (.notPath d)

-- Items that must be texts, counted from an index.
def textsFrom (index : Nat) : List Data → Except SettingFault (List String)
  | [] => .ok []
  | .text s :: rest => (textsFrom (index + 1) rest).map (s :: ·)
  | d :: _ => .error (.notText index d)

-- The extensions of sources, unless the language's own are to be used.
def extensions? (s : Settings) : Except SettingFault (Option (List String)) :=
  let d := s .extensions
  if !d.holds then
    .ok none
  else
    match d.items? with
    | some items => (textsFrom 0 items).map some
    | none => .error (.notList d)

def includes (s : Settings) : Except SettingFault (List String) :=
  match (s .includes).items? with
  | some items => .ok (items.map Data.display)
  | none => .error (.notList (s .includes))

def excludes (s : Settings) : Except SettingFault (List String) :=
  match (s .excludes).items? with
  | some items => .ok (items.map Data.display)
  | none => .error (.notFurther (s .excludes))

def language (s : Settings) : Except SettingFault String :=
  match s .language with
  | .text language => .ok language
  | .list items => .error (.notName (.list items))
  | .table entries => .error (.notName (.table entries))
  | d => .error (.notPath d)

def artifactDirectory? (s : Settings) : Except SettingFault (Option String) :=
  match s .artifactDirectory with
  | .null => .ok none
  | d => (pathText d).map some

def customScalars (s : Settings) : Except SettingFault (List (String × String)) :=
  match ConfigFile.scalars (s .customScalars) with
  | .ok (.table entries) => .ok (entries.map fun (name, type) => (name, type.display))
  | .ok _ => .ok []
  | .error e => .error (.scalars e)

def pollInterval (s : Settings) : Except SettingFault Nat :=
  match s .pollInterval with
  | .bool b => .ok (if b then 1 else 0)
  | .int n => .ok n.toNat
  | .float (.finite negative m e) => .ok (if negative then 0 else Binary64.roundScaled m 1 (-e))
  | .float _ => .ok 0
  | d => .error (.notInterval d)

end Settings

end GraphqlArtifacts
