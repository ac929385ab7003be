import GraphqlArtifacts.CommandLine.Flag
import GraphqlArtifacts.Text.Fill

-- The help text of the command line, filled to a width.

namespace GraphqlArtifacts

namespace CommandLine

-- The width of the help text.
def width : Nat := 78

-- The column in which the explanations of flags start.
def helpColumn : Nat := 24

-- The flags in their first spelling, each in brackets.
def usage : String :=
  let start := s!"usage: {programName} "
  let flags := Flag.all.filterMap fun flag =>
    flag.spellings.head?.map fun spelling => s!"[{flag.shown spelling}]"
  start ++ ("\n" ++ spaces start.length).intercalate (fill (width - start.length) flags) ++ "\n"

namespace Flag

-- The lines on a flag. Its explanation starts beside its spellings if they leave room.
def helpLines (flag : Flag) : List String :=
  let head := "  " ++ ", ".intercalate (flag.spellings.map flag.shown)
  let lines := fill (width - helpColumn) (wordsOf flag.help)
  let indented := lines.map (spaces helpColumn ++ ·)
  if head.length + 2 ≤ helpColumn then
    match lines with
    | first :: _ => (head ++ spaces (helpColumn - head.length) ++ first) :: indented.drop 1
    | [] => [head]
  else
    head :: indented

end Flag

def examples : List String := [
  "examples:",
  "  relaycompiler --schema schema.graphql --src ./src              # compile once",
  "  relaycompiler --schema schema.json --src ./src --watch         # keep compiling",
  "  relaycompiler --schema schema.graphql --src ./src --validate   # check artifacts are current",
  spaces 8]

def help : String :=
  let lines := ["", "compile graphql documents into generated artifacts", "", "options:"] ++
    Flag.all.flatMap Flag.helpLines ++ [""] ++ examples
  usage ++ "\n".intercalate lines ++ "\n"

def versionText : String :=
  s!"{programName} {version}\n"

end CommandLine

end GraphqlArtifacts
