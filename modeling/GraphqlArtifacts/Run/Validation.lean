import GraphqlArtifacts.Config.Access
import GraphqlArtifacts.Run.ConfigurationError

-- Validation of the settings of a run, and the paths that they stand for. Watching needs a marker
-- in the source directory or a directory above it.

namespace GraphqlArtifacts

namespace Tree

-- A watched directory, or one above it, has one of these entries.
def rootMarkers : List String :=
  [".git", ".hg", ".watchmanconfig"]

-- Whether a directory has a marker. They are looked for one after the other.
def hasMarker (t : Tree) (directory : Path) : Except FileError Bool :=
  rootMarkers.anyM fun marker => t.hasEntry (directory.child marker)

-- Whether a directory has a marker, or one of so many directories above it.
def hasMarkerAbove (t : Tree) (directory : Path) : Nat → Except FileError Bool
  | 0 => .ok false
  | left + 1 => do
    if ← t.hasMarker directory then return true
    t.hasMarkerAbove directory.parent left

-- Whether a directory or one above it, other than the root, has a marker.
def hasRootFile (t : Tree) (directory : Path) : Except FileError Bool :=
  let directory := directory.normalize
  t.hasMarkerAbove directory directory.parts.length

end Tree

-- Why the settings of a run are refused.
inductive ValidationError
  | configuration (e : ConfigurationError)
  | setting (e : SettingFault)
  | file (e : FileError)
  deriving Repr

-- The schema and the source directory of a run.
structure RunPaths where
  schema : Path
  source : Path
  deriving DecidableEq, Repr

-- The path that a setting names from a directory, which must lead somewhere.
def existingPath (t : Tree) (directory : Path) (value : Data) (missing : Path → ConfigurationError) :
    Except ValidationError Path := do
  let text ← (Settings.pathText value).mapError .setting
  let path := (directory.join text).normalize
  if ← (t.hasEntry path).mapError .file then return path
  throw (.configuration (missing path))

-- A directory that is watched has a marker in it or above it.
def checkRootFile (t : Tree) (directory : Path) : Except ValidationError Unit := do
  if !(← (t.hasRootFile directory).mapError .file) then
    throw (.configuration (.noRootFile directory))

-- The paths that the settings name from a directory.
def validate (t : Tree) (s : Settings) (directory : Path) : Except ValidationError RunPaths := do
  let refuse (e : ConfigurationError) : Except ValidationError Unit := throw (.configuration e)
  if !s.isOn .schema then refuse .noSchemaGiven
  if !s.isOn .source then refuse .noSourceGiven
  let schema ← existingPath t directory (s .schema) .schemaMissing
  let source ← existingPath t directory (s .source) .sourceMissing
  if s.isOn .watch && !s.isOn .watchman then refuse .watchWithoutWatchman
  if s.isOn .watch then checkRootFile t source
  if s.isOn .verbose && s.isOn .quiet then refuse .quietAndVerbose
  return ⟨schema, source⟩

end GraphqlArtifacts
