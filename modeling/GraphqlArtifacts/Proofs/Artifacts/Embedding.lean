import GraphqlArtifacts.Language.Javascript
import GraphqlArtifacts.Proofs.Artifacts.Locality
import GraphqlArtifacts.Proofs.Json.RoundTrip

-- A module holds its node as JSON: what is read where the module sets its node is the node itself.

namespace GraphqlArtifacts

variable {settings : WriterSettings} {s : Schema} {d : Graphql.Document} {m : ModuleSpec}
  {definition : Graphql.Definition} {e : Artifact.Entry} {name contents : String}

namespace Flow

-- A module up to its node, and after it.
def beforeNode (m : ModuleSpec) : String :=
  "/**\n * @flow\n * @relayHash " ++ m.sourceHash ++ "\n */\n\n/* eslint-disable */\n\n" ++
    "'use strict';\n\n/*::\nimport type \x7b " ++ m.documentType ++
    " \x7d from 'relay-runtime';\n" ++ m.typeText ++ "\n*/\n\nconst node/*: " ++
    m.documentType ++ "*/ = "

def afterNode (m : ModuleSpec) : String :=
  ";\n// prettier-ignore\n(node/*: any*/).hash = '" ++ m.sourceHash ++
    "';\nmodule.exports = node;\n"

-- A text in ASCII stands in the place of the node, and is the node when it is read as JSON.
def Embeds (contents : String) (m : ModuleSpec) : Prop :=
  ∃ node : String, contents = beforeNode m ++ node ++ afterNode m ∧
    Json.IsAscii node.toList ∧ Json.read node = .ok (.table m.node)

theorem moduleText_eq :
    moduleText m = beforeNode m ++ Json.pretty (.table m.node) ++ afterNode m := by
  have hassoc (a b c d : String) : a ++ b ++ c ++ d = a ++ (b ++ c ++ d) := by
    simp only [String.append_assoc]
  exact hassoc _ _ _ _

theorem moduleText_embeds (h : Json.IsPlain (.table m.node)) : Embeds (moduleText m) m := by
  refine ⟨Json.pretty (.table m.node), moduleText_eq, ?ascii, Json.read_chars h⟩
  case ascii => simpa [Json.pretty] using h.isAscii_chars _

end Flow

namespace Artifact

-- The node of an entry is one that JSON can hold, and its text is that of the entry.
theorem node_of_entry (h : entry? d definition = .ok (some e)) :
    Json.IsPlain (.table e.node) ∧ Data.lookup "text" e.node = some (.text e.text) := by
  have hplain {entries : List (String × Data)} (hk : (entries.map Prod.fst).Nodup)
      (ht : ∀ e ∈ entries, ∃ text, e.2 = .text text) : Json.IsPlain (.table entries) :=
    .table hk fun e he => by
      have ⟨text, h⟩ := ht e he
      exact h ▸ .text text
  cases definition
  case operation o =>
    simp only [ entry?] at h
    split at h <;> cases h
    exact ⟨hplain (by simp) (by simp), rfl⟩
  case fragment f =>
    cases h
    exact ⟨hplain (by simp) (by simp), rfl⟩
  all_goals cases h

theorem exists_entry_of_render?
    (h : render? settings s d definition = .ok (some (name, contents))) :
    ∃ e, entry? d definition = .ok (some e) := by
  rw [render?] at h
  cases he : entry? d definition
  case error => simp [he, bind, Except.bind] at h
  case ok entry =>
    cases entry
    case none   => simp [he, bind, Except.bind, pure, Except.pure] at h
    case some e => exact ⟨e, rfl⟩

-- A module embeds its node, whatever strings are in it. In the module of an operation or fragment
-- the node holds the text that the hash in the module is that of.
theorem formatModule_embeds :
    (∀ m, Json.IsPlain (.table m.node) →
      ∃ contents, Plugin.javascript.formatModule m = .ok contents ∧ Flow.Embeds contents m) ∧
    (∀ settings s d definition name contents,
      settings.plugin.formatModule = Plugin.javascript.formatModule →
      render? settings s d definition = .ok (some (name, contents)) →
      ∃ e m, entry? d definition = .ok (some e) ∧ Flow.Embeds contents m ∧
        m.sourceHash = Md5.digest (Utf8.encode e.text) ∧
        Data.lookup "text" m.node = some (.text e.text)) := by
  refine ⟨fun m h => ⟨_, rfl, Flow.moduleText_embeds h⟩, ?_⟩
  intro settings s d definition name contents hp hr
  have ⟨e, he⟩ := exists_entry_of_render? hr
  have ⟨hplain, htext⟩ := node_of_entry he
  rw [render?_of_entry he, moduleText] at hr
  cases ht : settings.plugin.generateTypes s settings.types definition
  case error => simp [ht, bind, Except.bind, Except.mapError, Except.map] at hr
  case ok types =>
    simp only [ht, hp] at hr
    cases hr
    exact ⟨e, _, he, Flow.moduleText_embeds hplain, rfl, htext⟩

-- A node with quotes, a line separator and a character beyond the basic plane, and containers
-- with and without items.
def mixedModule : ModuleSpec where
  moduleName := "Mixed.graphql"
  documentType := "ConcreteRequest"
  typeText := "export type Mixed = any;"
  sourceHash := "00"
  node := [("text", .text "a \"\\\" and\u2028𝄞"),
    ("counts", .list [.int (-12), .int 0, .list []]),
    ("flags", .table [("on", .bool true), ("off", .null), ("none", .table [])])]

def personFragment : Graphql.Fragment :=
  ⟨"Person_name", "Person", [], [.field none "name" [] [] []]⟩

theorem formatModule_embeds_mixed :
    (∃ contents, Plugin.javascript.formatModule mixedModule = .ok contents ∧
      Flow.Embeds contents mixedModule) ∧
    (∃ contents, render? (ArtifactWriter.plainSettings none) Schema.empty []
        (.fragment personFragment) = .ok (some ("Person_name", contents)) ∧
      ∃ m, Flow.Embeds contents m ∧
        m.sourceHash = Md5.digest (Utf8.encode personFragment.print) ∧
        Data.lookup "text" m.node = some (.text personFragment.print)) := by
  have hcounts : Json.IsPlain (.list [.int (-12), .int 0, .list []]) :=
    .list <| by simpa using ⟨.int _, .int _, .list <| by simp⟩
  have hflags : Json.IsPlain
      (.table [("on", .bool true), ("off", .null), ("none", .table [])]) :=
    .table (by decide) <| by simpa using ⟨.bool _, .null, .table (by decide) <| by simp⟩
  have hplain : Json.IsPlain (.table mixedModule.node) :=
    .table (by decide) <| by simpa [mixedModule] using ⟨.text _, hcounts, hflags⟩
  refine ⟨formatModule_embeds.left mixedModule hplain, _, rfl, ?_⟩
  have ⟨e, m, he, hm⟩ := formatModule_embeds.right (ArtifactWriter.plainSettings none) Schema.empty
    [] (.fragment personFragment) _ _ rfl rfl
  cases he
  exact ⟨m, hm⟩

end Artifact

end GraphqlArtifacts
