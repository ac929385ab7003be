import GraphqlArtifacts.Glob.Basic

-- Filters of paths by patterns to include and patterns to exclude. A pattern is looked at only when
-- no earlier one has decided, so a faulty one shows only then.

namespace GraphqlArtifacts

open Glob

-- Whether a test holds of some item. Later items are not tested, and a fault ends the search.
def anyOrFault (test : α → Except ε Bool) : List α → Except ε Bool
  | [] => .ok false
  | a :: rest =>
    match test a with
    | .ok true => .ok true
    | .ok false => anyOrFault test rest
    | .error e => .error e

-- A path that some of the patterns to include matches and none of those to exclude.
structure PathFilter where
  includes : List String
  excludes : List String
  deriving DecidableEq, Repr

namespace PathFilter

-- A path and the directories that it lies in, outermost first.
def withParents (path : String) : List String :=
  let parts := splitSlashes path.toList
  (List.range parts.length).map fun i =>
    String.ofList (['/'].intercalate (parts.take (i + 1)))

-- Whether a pattern to exclude matches a path or a directory that it lies in.
def isExcluded (f : PathFilter) (path : String) : Except InvalidPattern Bool :=
  let candidates := withParents path
  anyOrFault (fun pattern => anyOrFault (Glob.accepts pattern) candidates) f.excludes

-- Whether all that lies below a directory is excluded.
def excludesDirectory (f : PathFilter) (directory : String) : Except InvalidPattern Bool :=
  anyOrFault (fun pattern => anyOrFault (Glob.accepts pattern) [directory, directory ++ "/"])
    f.excludes

def accepts (f : PathFilter) (path : String) : Except InvalidPattern Bool :=
  match f.isExcluded path with
  | .ok true => .ok false
  | .ok false => anyOrFault (fun pattern => Glob.accepts pattern path) f.includes
  | .error e => .error e

end PathFilter

end GraphqlArtifacts
