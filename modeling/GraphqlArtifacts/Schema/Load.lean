import GraphqlArtifacts.Files.Tree
import GraphqlArtifacts.Json.Reader
import GraphqlArtifacts.Schema.Extension
import GraphqlArtifacts.Schema.Introspection

-- Loading a schema from a file of definitions, or from a JSON file with the answer of a server.
-- Each schema has the two directives for conditional selections, and may not declare them itself.

namespace GraphqlArtifacts

open Graphql (Document Definition)

-- Why a schema cannot be loaded. The faults of what builds it from definitions are left open.
inductive SchemaLoadFault (ε : Type := SchemaFault)
  | unreadable (e : ReadError)
  | json (e : Json.Error)
  | introspection (e : IntrospectionFault)
  | syntaxError (report : String)
  | ownDirective (name : String)
  | schema (e : ε)
  deriving DecidableEq, Repr

namespace SchemaLoadFault

def detail : SchemaLoadFault → String
  | .unreadable e => s!"{e.kindName}: {e.message}"
  | .json e => s!"JSONDecodeError: {e.message}"
  | .introspection e => s!"{e.kindName}: {e.message}"
  | .syntaxError report => s!"GraphQLSyntaxError: {report}"
  | .ownDirective name =>
    s!"SchemaLoadError: the schema declares directive @{name}, which is provided by the " ++
      "compiler; remove the declaration"
  | .schema (.noPart holder part) => s!"AttributeError: {(SchemaFault.noPart holder part).message}"
  | .schema e => s!"TypeError: {e.message}"

-- The message without blanks at its end.
def message (e : SchemaLoadFault) : String :=
  String.ofList <| trimBlank <| String.toList <|
    "Error loading schema. Expected the schema to be a .graphql or a .json\n" ++
      s!"file, describing your GraphQL server's API. Error detail:\n\n{e.detail}"

end SchemaLoadFault

namespace Schema

-- The directives for conditional selections, as they are written before all other definitions.
def providedText : String :=
  "\ndirective @include(if: Boolean) on FRAGMENT_SPREAD | FIELD\n" ++
    "directive @skip(if: Boolean) on FRAGMENT_SPREAD | FIELD\n"

def providedName? : Definition → Option String
  | .directive d => if d.name = "include" ∨ d.name = "skip" then some d.name else none
  | _ => none

section

variable {ε : Type}

def parsed (text : String) : Except (SchemaLoadFault ε) Document :=
  (Graphql.parse text).mapError fun e => .syntaxError (e.report text)

-- The text of the definitions that a JSON answer stands for, with or without its envelope.
def textOfAnswer (text : String) : Except (SchemaLoadFault ε) String := do
  let d ← (Json.read text).mapError .json
  let answer ← match d with
    | .table entries => pure ((Data.lookup "data" entries).getD d)
    | d => throw (.introspection (.noAttribute d.kindName "get"))
  (Introspection.schemaText answer).mapError .introspection

-- What builds a schema from definitions.
variable (builder : Document → Except ε Schema)

-- The schema that a text of definitions stands for. The text is looked through on its own, and is
-- then read with the directives before it.
def ofTextBy (text : String) : Except (SchemaLoadFault ε) Schema := do
  if let some name := (← parsed text).findSome? providedName? then
    throw (.ownDirective name)
  let d ← parsed (providedText ++ "\n" ++ text)
  (builder d).mapError .schema

def loadBy (t : Tree) (path : Path) : Except (SchemaLoadFault ε) Schema := do
  let text ← (t.readText path).mapError .unreadable
  if path.suffix = ".json" then ofTextBy builder (← textOfAnswer text) else ofTextBy builder text

end

-- The same with the builder that is written out here.
def ofText (text : String) : Except SchemaLoadFault Schema :=
  ofTextBy build text

def load (t : Tree) (path : Path) : Except SchemaLoadFault Schema :=
  loadBy build t path

end Schema

end GraphqlArtifacts
