import GraphqlArtifacts.Engine.State

-- Compiling once: every set of files is parsed, then every output is written. An output that cannot
-- be written does not stop the others, but nothing is written from sets that cannot be parsed.

namespace GraphqlArtifacts

namespace Engine

variable {σ : Type}

-- The files of a set, from what is named or what a query finds.
def listFiles (w : World σ) (p : Plan) (name : String) (set : FileSet) :
    Engine σ (List String) :=
  match set.files, set.expression with
  | some files, _ => pure files
  | none, none => pure []
  | none, some expression => do
    if !p.hasService then throw (.configuration (.parserNeedsClient name))
    let result ← talk (Watchman.query w.service set.base expression none)
    modify fun s => { s with clocks := Data.insert name result.clock s.clocks }
    return result.files

-- The files among some that can have tags.
def keepMentioning (w : World σ) (set : FileSet) : List String → Engine σ (List String)
  | [] => pure []
  | file :: rest => do
    let mentions ← reading w fun t => .ok (mentionsTags t set.base file)
    let later ← keepMentioning w set rest
    return if mentions then file :: later else later

-- The files among those of a set that are parsed.
def choose (w : World σ) (set : FileSet) (files : List String) : Engine σ (List String) :=
  if set.onlyMentioning then keepMentioning w set files else pure files

def readAll (w : World σ) (set : FileSet) : List String → Engine σ (List DocumentFile)
  | [] => pure []
  | file :: rest => do
    let first ← reading w fun t => (set.reader.parseFile t set.base file).mapError .document
    let later ← readAll w set rest
    return first.toList ++ later

-- The documents of a set, as its files are now.
def readSet (w : World σ) (p : Plan) (name : String) (set : FileSet) :
    Engine σ (List DocumentFile) := do
  let files ← listFiles w p name set
  let files ← choose w set files
  readAll w set files

-- Parses a set anew and keeps its documents.
def parse (w : World σ) (p : Plan) (name : String) : Engine σ (List DocumentFile) := do
  match Data.lookup name p.fileSets with
  | none => throw (.unknownName name)
  | some set =>
    let documents ← readSet w p name set
    modify fun s => { s with documents := Data.insert name documents s.documents }
    report (.time s!"Parsing {name}")
    return documents

-- Parses some sets, one after another.
def parseEach (w : World σ) (p : Plan) (names : List String) : Engine σ Unit :=
  names.forM fun name => discard (parse w p name)

-- What an output is written from.
def inputOf (o : Output) (schema : Schema) (s : EngineState σ) : WriterInput :=
  ⟨schema, s.documentsOf o.fileSet, o.baseSets.flatMap s.documentsOf⟩

-- Writes an output from the documents that are kept.
def writeOutput (p : Plan) (name : String) (o : Output) (schema : Schema) :
    Engine σ Outcome := do
  let s ← get
  let (result, tree) := ArtifactWriter.run o.writer p.onlyValidate (inputOf o schema s) s.scene.tree
  set { s with scene := { s.scene with tree } }
  let outcome ← match result with
    | .ok changes => do
      (changes.messages p.onlyValidate).forM fun m => report (.message m)
      pure (if changes.hasChanges then Outcome.hasChanges else .noChanges)
    | .error e => do
      report (.error s!"Error writing {name}" (.write e))
      pure .error
  report (.time s!"Writing {name}")
  return outcome

-- Writes an output by its name.
def compile (p : Plan) (name : String) : Engine σ Outcome :=
  match Data.lookup name p.outputs with
  | none => throw (.unknownName name)
  | some o =>
    match Data.lookup o.fileSet p.fileSets with
    | none => throw (.unknownName o.fileSet)
    | some set => writeOutput p name o set.schema

-- Goes on after a fault that is not one of configuration, which is reported.
def recovering (caption : String) (step : Engine σ α) : Engine σ (Option α) :=
  tryCatch (some <$> step) fun
    | .configuration e => throw (.configuration e)
    | e => do
      report (.error caption e)
      return none

def compileEach (p : Plan) : Engine σ Outcome := do
  return .combine (← p.outputs.mapM fun (name, _) => compile p name)

-- Parses every set and writes every output, in order.
def compileAll (w : World σ) (p : Plan) : Engine σ Outcome := do
  let parsed ← recovering "Error parsing documents" (parseEach w p (p.fileSets.map Prod.fst))
  match parsed with
  | none => return .error
  | some () => compileEach p

end Engine

end GraphqlArtifacts
