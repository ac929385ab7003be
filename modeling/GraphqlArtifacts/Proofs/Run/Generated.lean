import GraphqlArtifacts.Proofs.Documents.Mentioning
import GraphqlArtifacts.Proofs.Files.Text
import GraphqlArtifacts.Proofs.Run.Footprint

namespace GraphqlArtifacts

open Search (pathText)

namespace Path

variable {p directory : Path} {name : String} {above parts : List String}

theorem below?_eq_some_iff :
    directory.below? p = some parts ↔
      directory.root = p.root ∧ p.parts = directory.parts ++ parts := by
  simp only [below?, Option.ite_none_right_eq_some, List.isPrefixOf_iff_prefix,
    Option.some.injEq, and_assoc, and_congr_right_iff]
  intro _
  constructor
  case mp =>
    rintro ⟨⟨rest, h⟩, rfl⟩
    rw [← h, List.drop_left]
  case mpr =>
    intro h
    exact ⟨⟨parts, h.symm⟩, by rw [h, List.drop_left]⟩

-- What is reported of a path ends with its name, and starts with what is reported of its parent.
theorem exists_parent_parts (h : (p.child name).parts = above ++ parts) (hn : parts ≠ []) :
    ∃ within, p.parts = above ++ within ∧ parts = within ++ [name] := by
  obtain ⟨within, last, rfl⟩ := (List.eq_nil_or_concat' parts).resolve_left hn
  rw [child, ← List.append_assoc] at h
  obtain ⟨hp, hname⟩ := List.append_inj' h rfl
  exact ⟨within, hp, hname ▸ rfl⟩

theorem IsBelow.length_le_parent (h : directory.IsBelow p) (hne : p ≠ directory) :
    directory.parts.length ≤ p.parent.parts.length := by
  obtain ⟨file, rfl, ha, _⟩ := h
  have hp : (ofText file).parts ≠ [] := fun hp => hne <| by simp [join, ha, hp]
  have := List.length_pos_iff.mpr hp
  simp [join, ha, Path.parent]
  omega

end Path

namespace Run

variable {σ : Type} {w : World σ} {i : RunInput} {s s' : EngineState σ} {p : Plan}
  {plugin : Plugin} {above : List String} {name directory : String}

-- The name of an artifact is never what is missing.
theorem isGenerated_artifact : isGenerated (Artifact.suffix plugin) directory
      (pathText (above ++ [name ++ Artifact.suffix plugin])) ↔
    directory.toList <:+: (pathText (above ++ [name ++ Artifact.suffix plugin])).toList := by
  have hend : (pathText (above ++ [name ++ Artifact.suffix plugin])).endsWith
      (Artifact.suffix plugin) := by
    have hname := ArtifactWriter.endsWith_iff.mp <| @ArtifactWriter.endsWith_suffix name plugin
    exact ArtifactWriter.endsWith_iff.mpr <| hname.trans Path.suffix_pathText
  rw [isGenerated, hend, Bool.true_and, holdsText_iff]

variable {o : Output} {outputName : String} {source document : Path} {parts : List String}

-- An artifact is taken for one, by its path as it is reported from a directory above its document,
-- if the text of the directory for artifacts is in that path. It always is unless a directory is
-- set. The path of one that is set is within the reported one only if both are from the root, and
-- all names of the directory are the same one, that the name of the artifact starts with.
theorem plan_recognizes_iff (hi : i.directory.IsRooted) (h : exec (plan w i) s = (.ok p, s'))
    (ho : (outputName, o) ∈ p.outputs) (hx : '/' ∉ o.writer.plugin.outputExtension.toList)
    (hd : source.IsBelow document) (hne : document ≠ source) (hn : Graphql.IsName name)
    (hb : source.below? (Artifact.path o.writer document name) = some parts) (hp : parts ≠ []) :
    o.isGenerated (pathText parts) ↔ ∀ directory ∈ o.writer.outputDirectory,
      source.parts = [] ∧ ∃ n part, directory.parts = List.replicate (n + 1) part ∧
        part.toList <+: (name ++ Artifact.suffix o.writer.plugin).toList := by
  have ⟨paths, plugin, hm⟩ := plan_made h
  obtain ⟨out, o', hout, hplugin, output, -, hset⟩ := hm.outputs
  obtain ⟨rfl, rfl⟩ : outputName = out ∧ o = o' := by simpa [hout] using ho
  rw [ArtifactWriter.path_eq_child hx hn, Path.below?_eq_some_iff, Artifact.directory] at hb
  obtain ⟨above, hparts, rfl⟩ := Path.exists_parent_parts hb.right hp
  rw [hm.generated ho, ← hplugin, isGenerated_artifact]
  cases output
  case none =>
    simp only [hset, Option.map_none, Option.getD_none] at hparts ⊢
    have habove : above ≠ [] := by
      rintro rfl
      have hlength := hd.length_le_parent hne
      have hcount := congrArg List.length hparts
      simp only [Path.child, List.length_append, List.length_singleton, List.length_nil] at hcount
      omega
    obtain ⟨within, _, rfl⟩ := Path.exists_parent_parts hparts habove
    simpa using Path.infix_pathText
  case some text =>
    simp only [hset, Option.map_some, Option.getD_some] at hparts ⊢
    have hr := (hi.join text).normalize
    rw [Path.text_infix_iff hr.left hparts]
    · simp
    · exact fun part hm => (hr.right part hm).right
    · exact ArtifactWriter.slash_not_mem_fileName hn hx

-- The artifact of the query beside its source.
theorem plan_recognizes_beside : ∃ p s', exec (plan World.alone appRun) (.start ⟨appTree, ()⟩) =
    (.ok p, s') ∧ ∃ name o, (name, o) ∈ p.outputs ∧ o.isGenerated "__generated__/Q.graphql.js" := by
  rcases h : exec (plan World.alone appRun) (.start ⟨appTree, ()⟩) with ⟨r, s'⟩
  have hr : r.toOption.isSome := by
    rw [← show _ = r from congrArg Prod.fst h]
    decide +kernel
  cases r
  case error => cases hr
  case ok p =>
    have ⟨paths, plugin, hm⟩ := plan_made h
    have ⟨language, hl, hplugin⟩ := hm.language
    have hj : appRun.UsesJavascript := RunInput.usesJavascript rfl rfl
    obtain rfl := hj hl hplugin
    have ⟨name, o, hout, hjs, text, htext, hset⟩ := hm.outputs
    have ho : (name, o) ∈ p.outputs := hout ▸ List.mem_singleton_self _
    obtain rfl : none = text := Except.ok.inj htext
    rw [Option.map_none] at hset
    have hi : appRun.directory.IsRooted := ⟨by decide, by decide⟩
    have hx : '/' ∉ o.writer.plugin.outputExtension.toList := by
      rw [hjs]
      decide
    have hd : Path.IsBelow ⟨"/", ["src"]⟩ ⟨"/", ["src", "App.js"]⟩ :=
      ⟨"App.js", by decide +kernel, by decide +kernel, by unfold Path.IsResolved; decide +kernel⟩
    have hn : Graphql.IsName "Q" := ⟨'Q', [], rfl, by decide, by simp⟩
    have hb : Path.below? ⟨"/", ["src"]⟩ (Artifact.path o.writer ⟨"/", ["src", "App.js"]⟩ "Q") =
        some ["__generated__", "Q.graphql.js"] := by
      rw [Artifact.path, Artifact.directory, hset, hjs]
      decide +kernel
    have hrecognizes := plan_recognizes_iff hi h ho hx hd (by decide) hn hb (by decide)
    exact ⟨p, s', rfl, name, o, ho, hrecognizes.mpr <| by simp [hset]⟩

def elsewhereRun : RunInput :=
  { appRun with settings := appRun.settings.set .artifactDirectory (.text "src/gen") }

-- Into a directory that is set, it goes without being recognized there.
theorem plan_overlooks_elsewhere :
    (exec (plan World.alone elsewhereRun) (.start ⟨appTree, ()⟩)).1.toOption.map (fun p =>
      p.outputs.map fun (_, o) =>
        (Path.below? ⟨"/", ["src"]⟩ (Artifact.path o.writer ⟨"/", ["src", "App.js"]⟩ "Q"),
          o.isGenerated (pathText ["gen", "Q.graphql.js"]))) =
      some [(some ["gen", "Q.graphql.js"], false)] := by
  decide +kernel

end Run

end GraphqlArtifacts
