import GraphqlArtifacts.Proofs.Config.Layers
import GraphqlArtifacts.Proofs.Except

namespace GraphqlArtifacts

namespace Environment

variable {e : Environment}

-- The environment sets options to values of their types.
theorem get?_isTyped : Layer.IsTyped e.get? := by
  intro name d h
  have ⟨_, hv, h⟩ := Option.bind_eq_some_iff.mp h
  have ⟨text, _, h⟩ := Option.bind_eq_some_iff.mp h
  split at h
  case isTrue => cases h
  case isFalse =>
    have h : valueOf? name text = some d := h
    cases name
    case pollInterval =>
      have ⟨n, _, h⟩ := Option.map_eq_some_iff.mp h
      exact ⟨n, h.symm⟩
    case schema | source | language | artifactDirectory | watchman =>
      exact ⟨_, (Option.some.inj h).symm⟩
    all_goals cases hv

end Environment

namespace ConfigFile

variable {t : Tree} {directory path : Path} {entries own project : List (String × Data)}
  {e : Environment} {name : OptionName}

-- What a table sets an option to, where a single text stands for a list.
def given (entries : List (String × Data)) : Layer := fun name =>
  match name with
  | .extensions | .includes | .excludes => (value? entries name).map listed
  | name => value? entries name

-- A table of texts is read as it is.
theorem scalars_of_takes {d : Data} (h : OptionName.customScalars.Takes d) :
    scalars d = .ok d := by
  have ⟨types, hn, hd⟩ := h
  have hf := @Data.foldl_insert _ (types.map fun type => (type.1, Data.text type.2)) [] <| by
    simpa [Function.comp_def] using hn
  rw [List.foldl_map] at hf
  simp only [hd, scalars, List.map_map, List.foldl_map, bind, Except.bind, pure, Except.pure]
  exact congrArg (Except.ok ∘ Data.table) hf

theorem settingsOf_of_isTyped (h : (given entries).IsTyped) :
    settingsOf entries = .ok (given entries).settings := by
  have hs : (value? entries .customScalars).mapM scalars =
      .ok (value? entries .customScalars) := by
    cases hv : value? entries .customScalars
    case none   => rfl
    case some d => exact congrArg (Functor.map some) (scalars_of_takes <| h _ _ hv)
  simp only [settingsOf, hs, bind, Except.bind]
  congr 1
  funext name
  cases name <;> rfl

-- A file holds a table, or nothing that can be read as one.
def Holds (t : Tree) (path : Path) (entries : List (String × Data)) : Prop :=
  document t path = .ok (some (.table entries)) ∨ (document t path = .ok none ∧ entries = [])

-- The table in a table, which is empty if there is none.
def tableAt? (key : String) (entries : List (String × Data)) : Option (List (String × Data)) :=
  match Data.lookup key entries with
  | none => some []
  | some (.table entries) => some entries
  | some _ => none

-- The tables of settings in the files of a project, with values of the types that the options have.
structure Contents (t : Tree) (directory : Path) (own project : List (String × Data)) : Prop where
  ownHeld      : Holds t (directory.child ownName) own
  projectHeld  : ∃ file, Holds t (directory.child projectName) file ∧
    (tableAt? "tool" file).bind (tableAt? "relaycompiler") = some project
  ownTyped     : (given own).IsTyped
  projectTyped : (given project).IsTyped

theorem settings_given_nil : (given []).settings = Settings.defaults := by
  funext name
  cases name <;> rfl

theorem own_of_contents (h : Contents t directory own project) :
    ∃ s, ConfigFile.own t directory = .ok s ∧ s.getD Settings.defaults = (given own).settings := by
  cases h.ownHeld
  case inl hd =>
    refine ⟨some (given own).settings, ?_, rfl⟩
    simp only [ConfigFile.own, hd, bind, Except.bind, settingsIn, settingsOf_of_isTyped h.ownTyped]
    rfl
  case inr hd =>
    refine ⟨none, ?_, ?_⟩
    · simp only [ConfigFile.own, hd.left, bind, Except.bind]
      rfl
    · rw [hd.right, settings_given_nil]
      rfl

theorem project_of_contents (h : Contents t directory own project) :
    ∃ s, ConfigFile.project t directory = .ok s ∧
      s.getD Settings.defaults = (given project).settings := by
  have ⟨file, hheld, ht⟩ := h.projectHeld
  have ⟨tools, htools, hproject⟩ := Option.bind_eq_some_iff.mp ht
  have hempty (hp : project = []) : (none : Option Settings).getD Settings.defaults =
      (given project).settings := by
    rw [hp, settings_given_nil]
    rfl
  cases hheld
  case inl hd =>
    have hget : ((Data.table file).get? "tool").getD (.table []) = .table tools := by
      unfold tableAt? at htools
      split at htools <;> simp_all [Data.get?]
    simp only [ConfigFile.project, hd, bind, Except.bind, hget]
    unfold tableAt? at hproject
    split at hproject
    case h_1 hl =>
      refine ⟨none, ?_, hempty <| (Option.some.inj hproject).symm⟩
      simp [hl, Data.holds]
      rfl
    case h_2 entries hl =>
      cases hproject
      cases project
      case nil =>
        refine ⟨none, ?_, hempty rfl⟩
        simp [hl, Data.holds]
        rfl
      case cons =>
        refine ⟨some _, ?_, rfl⟩
        simp only [hl, Option.getD_some, Data.holds, settingsIn, List.isEmpty_cons, Bool.not_false,
          if_true, settingsOf_of_isTyped h.projectTyped]
        rfl
    case h_3 => cases hproject
  case inr hd =>
    refine ⟨none, ?_, hempty ?_⟩
    · simp only [ConfigFile.project, hd.left, bind, Except.bind]
      rfl
    · simp only [tableAt?, hd.right, Data.lookup_nil, Option.some.injEq] at htools
      simp only [tableAt?, ← htools, Data.lookup_nil, Option.some.injEq] at hproject
      exact hproject.symm

end ConfigFile

open ConfigFile (Contents)

variable {t : Tree} {directory : Path} {own project : List (String × Data)}

namespace Settings

-- What sets options, the strongest first: the environment, the file of settings and the file of the
-- project.
def sources (e : Environment) (own project : List (String × Data)) : List Layer :=
  [e.get?, ConfigFile.given own, ConfigFile.given project]

theorem load_merged (h : Contents t directory own project) (e : Environment) :
    load t directory e = .ok (Layer.merged (sources e own project)) := by
  have ⟨p, hp, hpg⟩ := ConfigFile.project_of_contents h
  have ⟨o, ho, hog⟩ := ConfigFile.own_of_contents h
  simp only [load, hp, ho, bind, Except.bind, hpg, hog]
  rfl

-- An option has the strongest of its values that is not the default. So it has the strongest value
-- of all exactly if that is not the default, or all others are the default as well.
theorem load_strongest_iff (h : Contents t directory own project) (e : Environment) :
    ∃ s, load t directory e = .ok s ∧ ∀ name values,
      values = Layer.values (sources e own project) name →
        s name = (values.find? (· ≠ defaults name)).getD (defaults name) ∧
        (s name = values.headD (defaults name) ↔
          (values.head? = some (defaults name) → ∀ d ∈ values, d = defaults name)) := by
  have ht : ∀ g ∈ sources e own project, g.IsTyped := by
    simp only [sources, List.forall_mem_cons, List.not_mem_nil, false_implies, implies_true,
      and_true]
    exact ⟨Environment.get?_isTyped, h.ownTyped, h.projectTyped⟩
  refine ⟨_, load_merged h e, fun name values hv => ?_⟩
  subst hv
  exact ⟨Layer.merged_eq ht name, Layer.merged_eq_strongest_iff ht⟩

-- A project whose files both say whether to be verbose.
def verboseTree (own project : Bool) : Tree :=
  let line (isVerbose : Bool) : String :=
    if isVerbose then "verbose = true\n" else "verbose = false\n"
  ⟨[([ConfigFile.ownName], .file (Utf8.encode (line own))),
    ([ConfigFile.projectName], .file (Utf8.encode ("[tool.relaycompiler]\n" ++ line project)))]⟩

def verboseEntries (isVerbose : Bool) : List (String × Data) :=
  [("verbose", .bool isVerbose)]

theorem verboseEntries_isTyped (isVerbose : Bool) :
    (ConfigFile.given (verboseEntries isVerbose)).IsTyped := by
  intro name d h
  cases name
  case verbose =>
    cases h
    exact ⟨isVerbose, rfl⟩
  all_goals cases h

theorem verboseContents (own project : Bool) :
    Contents (verboseTree own project) ⟨"/", []⟩ (verboseEntries own) (verboseEntries project) where
  ownHeld := .inl <| ok_of_toOption <| by
    cases own <;> cases project <;> decide +kernel
  projectHeld := by
    refine ⟨[("tool", .table [("relaycompiler", .table (verboseEntries project))])], ?_, ?_⟩
    · refine .inl <| ok_of_toOption ?_
      cases own <;> cases project <;> decide +kernel
    · simp [ConfigFile.tableAt?, Data.lookup_cons]
  ownTyped := verboseEntries_isTyped own
  projectTyped := verboseEntries_isTyped project

-- A file of settings can switch on what the project leaves off.
theorem load_switchedOn : ∃ s, load (verboseTree true false) ⟨"/", []⟩ [] = .ok s ∧
    s .verbose = .bool true := by
  have ⟨s, hs, hv⟩ := load_strongest_iff (verboseContents true false) []
  have ⟨_, hv⟩ := hv .verbose [.bool true, .bool false] rfl
  exact ⟨s, hs, hv.mpr <| by simp [defaults]⟩

-- But it cannot switch off what the project has on.
theorem load_not_switchedOff : ∃ s, load (verboseTree false true) ⟨"/", []⟩ [] = .ok s ∧
    Contents (verboseTree false true) ⟨"/", []⟩ (verboseEntries false) (verboseEntries true) ∧
    (Layer.values (sources [] (verboseEntries false) (verboseEntries true)) .verbose).head? =
      some (.bool false) ∧
    s .verbose = .bool true :=
  ⟨_, load_merged (verboseContents false true) [], verboseContents false true, rfl, rfl⟩

end Settings

end GraphqlArtifacts
