import GraphqlArtifacts.CommandLine.Execute

-- The program: the files of the current directory, and of the directories that a run names, are
-- read into a tree; the command line is carried out on it; then what changed is written back. There
-- is no watch service here.

namespace GraphqlArtifacts

namespace Program

-- The entries below a directory, as far down as the fuel allows.
def entriesBelow : Nat → List String → IO (List (List String × Entry))
  | 0, _ => return []
  | fuel + 1, place => do
    let directory := (← IO.currentDir) / (Path.mk "/" place).text
    let inner ← (← directory.readDir).toList.mapM fun entry => do
      let here := place ++ [entry.fileName]
      if ← entry.path.isDir then
        return (here, Entry.directory) :: (← entriesBelow fuel here)
      else
        return [(here, .file (← IO.FS.readBinFile entry.path).toList)]
    return inner.flatten

-- The most directories that lie inside one another.
def maxDepth : Nat := 64

-- What is at a place: a file, a directory with all below it, or nothing.
def entriesAt (path : Path) : IO (List (List String × Entry)) := do
  let file := (← IO.currentDir) / path.text
  let above := (List.range path.parts.length).map fun n => (path.parts.take n, Entry.directory)
  if ← file.isDir then
    return above.drop 1 ++ (path.parts, .directory) :: (← entriesBelow maxDepth path.parts)
  else if ← file.pathExists then
    return above.drop 1 ++ [(path.parts, .file (← IO.FS.readBinFile file).toList)]
  else
    return []

-- The markers in a directory and in those above it.
def markersAbove (path : Path) : IO (List (List String × Entry)) := do
  let directories := (List.range (path.parts.length + 1)).map path.parts.take
  let found ← directories.mapM fun place => Tree.rootMarkers.mapM fun marker => do
    let here := place ++ [marker]
    let file := (← IO.currentDir) / (Path.mk "/" here).text
    return if ← file.pathExists then [(here, Entry.directory)] else []
  return found.flatten.flatten

-- The first entry of each place.
def distinct (entries : List (List String × Entry)) : List (List String × Entry) :=
  entries.foldl (fun kept e => if kept.any (·.1 == e.1) then kept else kept ++ [e]) []

def currentPath : IO Path := do
  return (Path.ofText (← IO.currentDir).toString).normalize

-- The paths that a setting may name: those on the command line and in the environment.
def namedPaths (words : List String) (e : Environment) : List String :=
  let values := words.map fun word => (word.splitOn "=").getLastD ""
  (values ++ e.map (·.2)).filter (· != "")

def readEnvironment : IO Environment := do
  let found ← OptionName.all.mapM fun name => do
    match Environment.variableOf? name with
    | none => return []
    | some v => return ((← IO.getEnv v).map fun text => (v, text)).toList
  return found.flatten

-- The tree of all that a command line may need.
def readTree (directory : Path) (words : List String) (e : Environment) : IO Tree := do
  let paths := directory :: (namedPaths words e).map fun text => (directory.join text).normalize
  let outside := paths.filter fun path => path == directory || (directory.below? path).isNone
  let entries ← outside.mapM entriesAt
  let markers ← markersAbove directory
  return ⟨distinct (entries.flatten ++ markers)⟩

-- Writes back the files that are new, changed or gone.
def writeTree (before after : Tree) : IO Unit := do
  let root ← IO.currentDir
  for (place, e) in after.entries do
    match e with
    | .file content =>
      if before.get? place ≠ some e then
        IO.FS.createDirAll (root / (Path.mk "/" place.dropLast).text)
        IO.FS.writeBinFile (root / (Path.mk "/" place).text) (ByteArray.mk content.toArray)
    | .directory => pure ()
  for (place, e) in before.entries do
    if e.isFile && (after.get? place).isNone then
      IO.FS.removeFile (root / (Path.mk "/" place).text)

-- A world in which nobody else acts and no watch service answers.
def quietWorld : World Unit where
  service _ scene := (.error (.service (.notRun "no service")), scene)
  pass := id
  pause := id

def trace (e : EngineFault) : String :=
  Console.trace e.kindName e.message

end Program

end GraphqlArtifacts

open GraphqlArtifacts in
def main (words : List String) : IO UInt32 := do
  let directory ← Program.currentPath
  let environment ← Program.readEnvironment
  let before ← Program.readTree directory words environment
  let invocation : CommandLine.Invocation :=
    ⟨words, directory, environment, PluginRegistry.start [], ⟨[], []⟩, false⟩
  let (result, after) := CommandLine.execute Program.quietWorld invocation
    ⟨.zero false, Program.trace⟩ 0 ⟨before, ()⟩
  Program.writeTree before after.scene.tree
  match result with
  | .ok finished =>
    IO.print finished.output
    IO.eprint finished.errors
    return finished.code.toUInt32
  | .error e =>
    IO.eprint (Console.trace e.kindName e.message)
    return 1
