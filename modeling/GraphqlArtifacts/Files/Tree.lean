import GraphqlArtifacts.Files.Path
import GraphqlArtifacts.Text.Quoted
import GraphqlArtifacts.Text.Utf8

-- A tree of files and directories. A place in it is the list of names from the root; there are no
-- links, so each entry has one place. Reading a path walks it name by name and says why it fails.

namespace GraphqlArtifacts

inductive Entry
  | directory
  | file (content : List UInt8)
  deriving DecidableEq, Repr

namespace Entry

def isFile : Entry → Bool
  | .file _ => true
  | .directory => false

end Entry

structure Tree where
  entries : List (List String × Entry)
  deriving Repr

-- Why an operation on a path fails.
inductive FileFault
  | notFound
  | exists
  | notDirectory
  | isDirectory
  | nameTooLong
  deriving DecidableEq, Repr

namespace FileFault

def number : FileFault → Nat
  | .notFound => 2
  | .exists => 17
  | .notDirectory => 20
  | .isDirectory => 21
  | .nameTooLong => 36

def description : FileFault → String
  | .notFound => "No such file or directory"
  | .exists => "File exists"
  | .notDirectory => "Not a directory"
  | .isDirectory => "Is a directory"
  | .nameTooLong => "File name too long"

def kindName : FileFault → String
  | .notFound => "FileNotFoundError"
  | .exists => "FileExistsError"
  | .notDirectory => "NotADirectoryError"
  | .isDirectory => "IsADirectoryError"
  | .nameTooLong => "OSError"

end FileFault

structure FileError where
  fault : FileFault
  path : Path
  deriving DecidableEq, Repr

def FileError.message (e : FileError) : String :=
  s!"[Errno {e.fault.number}] {e.fault.description}: {quoted e.path.text}"

-- Why the text of a file cannot be read.
inductive ReadError
  | file (e : FileError)
  | decoding (e : Utf8.Error)
  deriving DecidableEq, Repr

namespace ReadError

def message : ReadError → String
  | .file e => e.message
  | .decoding e => e.message

def kindName : ReadError → String
  | .file e => e.fault.kindName
  | .decoding _ => "UnicodeDecodeError"

end ReadError

namespace Tree

def empty : Tree :=
  ⟨[]⟩

-- The entry at a place. The root is always a directory.
def get? (t : Tree) (place : List String) : Option Entry :=
  if place = [] then some .directory else (t.entries.find? (·.1 == place)).map (·.2)

-- The tree with an entry at a place.
def set (t : Tree) (place : List String) (e : Entry) : Tree :=
  ⟨t.entries.filter (·.1 != place) ++ [(place, e)]⟩

-- The tree without a place and all that lies below it.
def erase (t : Tree) (place : List String) : Tree :=
  ⟨t.entries.filter fun entry => !place.isPrefixOf entry.1⟩

-- The tree with directories at a place and at all places above it that have no entry.
def withDirectories (t : Tree) (place : List String) : Tree :=
  (List.range place.length).foldl
    (fun t n =>
      let here := place.take (n + 1)
      if (t.get? here).isNone then t.set here .directory else t)
    t

-- The most bytes that a name may have.
def maxNameLength : Nat := 255

def isTooLong (name : String) : Bool :=
  maxNameLength < (Utf8.encode name).length

-- The place that names lead to from a directory; all but the last name must lead somewhere.
-- A double dot leads back to the directory above, but only from a directory that is there.
def walk (t : Tree) : List String → List String → Except FileFault (List String)
  | here, [] => .ok here
  | here, part :: rest =>
    match t.get? here with
    | none => .error .notFound
    | some (.file _) => .error .notDirectory
    | some .directory =>
      if part = ".." then walk t here.dropLast rest
      else if isTooLong part then .error .nameTooLong
      else walk t (here ++ [part]) rest

-- The entry that a path leads to.
def look (t : Tree) (p : Path) : Except FileFault Entry := do
  let place ← t.walk [] p.parts
  match t.get? place with
  | some e => .ok e
  | none => .error .notFound

-- Whether a path leads to an entry. A name that is too long is a fault.
def hasEntry (t : Tree) (p : Path) : Except FileError Bool :=
  match t.look p with
  | .ok _ => .ok true
  | .error .nameTooLong => .error ⟨.nameTooLong, p⟩
  | .error _ => .ok false

def isDirectory (t : Tree) (p : Path) : Bool :=
  match t.look p with
  | .ok .directory => true
  | _ => false

def isFile (t : Tree) (p : Path) : Bool :=
  match t.look p with
  | .ok (.file _) => true
  | _ => false

def readBytes (t : Tree) (p : Path) : Except FileError (List UInt8) :=
  match t.look p with
  | .ok (.file content) => .ok content
  | .ok .directory => .error ⟨.isDirectory, p⟩
  | .error fault => .error ⟨fault, p⟩

-- The text of a file, its line ends normalized.
def readText (t : Tree) (p : Path) : Except ReadError String :=
  match t.readBytes p with
  | .ok bytes => (Utf8.decodeText bytes).mapError .decoding
  | .error e => .error (.file e)

-- Writes a text as it is, into a directory that is there.
def writeText (t : Tree) (p : Path) (text : String) : Except FileError Tree :=
  match t.walk [] p.parts with
  | .error fault => .error ⟨fault, p⟩
  | .ok place =>
    match t.get? place, t.get? place.dropLast with
    | some .directory, _ => .error ⟨.isDirectory, p⟩
    | _, some .directory => .ok (t.set place (.file (Utf8.encode text)))
    | _, some (.file _) => .error ⟨.notDirectory, p⟩
    | _, none => .error ⟨.notFound, p⟩

-- Makes one directory, unless it is there.
def makeDirectory (t : Tree) (p : Path) : Except FileFault Tree :=
  match t.walk [] p.parts with
  | .error fault => .error fault
  | .ok place =>
    match t.get? place, t.get? place.dropLast with
    | some .directory, _ => .ok t
    | some (.file _), _ => .error .exists
    | none, some .directory => .ok (t.set place .directory)
    | none, some (.file _) => .error .notDirectory
    | none, none => .error .notFound

-- Makes a directory and its parents. The number of names bounds the number of parents.
-- Parents are made only where they are missing, from the outermost one inwards.
def makeDirectories (t : Tree) (p : Path) : Nat → Except FileError Tree
  | 0 => (t.makeDirectory p).mapError (⟨·, p⟩)
  | n + 1 =>
    match t.makeDirectory p with
    | .ok t => .ok t
    | .error .notFound => do
      let t ← t.makeDirectories p.parent n
      (t.makeDirectory p).mapError (⟨·, p⟩)
    | .error fault => .error ⟨fault, p⟩

-- The names of the entries directly in a directory.
def namesIn (t : Tree) (directory : List String) : List String :=
  t.entries.filterMap fun (place, _) =>
    match place.getLast? with
    | some name => if place.dropLast = directory then some name else none
    | none => none

-- The places of all files below a directory, from there.
def filesBelow (t : Tree) (directory : List String) : List (List String) :=
  t.entries.filterMap fun (place, e) =>
    if e.isFile && directory.isPrefixOf place then some (place.drop directory.length) else none

end Tree

end GraphqlArtifacts
