import Mathlib.Data.List.Induction
import Mathlib.Data.List.TakeDrop
import GraphqlArtifacts.CommandLine.Arguments
import GraphqlArtifacts.Proofs.Data.Lookup
import GraphqlArtifacts.Proofs.Except

namespace GraphqlArtifacts

namespace CommandLine

-- A flag that stands alone and sets an option.
inductive Switch
  | verbose
  | quiet
  | watch
  | noWatchman
  | validate
  | noFutureProofEnums
  | respectIgnoreFiles

namespace Switch

def spelling : Switch → String
  | verbose            => "--verbose"
  | quiet              => "--quiet"
  | watch              => "--watch"
  | noWatchman         => "--no-watchman"
  | validate           => "--validate"
  | noFutureProofEnums => "--no-future-proof-enums"
  | respectIgnoreFiles => "--respect-gitignore"

def option : Switch → OptionName
  | verbose            => .verbose
  | quiet              => .quiet
  | watch              => .watch
  | noWatchman         => .watchman
  | validate           => .validate
  | noFutureProofEnums => .noFutureProofEnums
  | respectIgnoreFiles => .respectIgnoreFiles

def isOn : Switch → Bool
  | noWatchman => false
  | _          => true

end Switch

-- A flag with one value.
inductive Single
  | schema
  | source
  | language
  | artifactDirectory

namespace Single

def spelling : Single → String
  | schema            => "--schema"
  | source            => "--src"
  | language          => "--language"
  | artifactDirectory => "--artifact-directory"

def option : Single → OptionName
  | schema            => .schema
  | source            => .source
  | language          => .language
  | artifactDirectory => .artifactDirectory

end Single

-- A flag with one or more values.
inductive Several
  | extensions
  | includes
  | excludes

namespace Several

def spelling : Several → String
  | extensions => "--extensions"
  | includes   => "--include"
  | excludes   => "--exclude"

def option : Several → OptionName
  | extensions => .extensions
  | includes   => .includes
  | excludes   => .excludes

end Several

-- A flag, spelled in full, with the values that it is given.
inductive Given
  | debug
  | switch (f : Switch)
  | one (f : Single) (value : String)
  | several (f : Several) (first : String) (rest : List String)
  | scalar (name type : String)

namespace Given

def spelling : Given → String
  | debug         => "--debug"
  | switch f      => f.spelling
  | one f _       => f.spelling
  | several f _ _ => f.spelling
  | scalar _ _    => "--custom-scalar"

def values : Given → List String
  | debug | switch _     => []
  | one _ value          => [value]
  | several _ first rest => first :: rest
  | scalar name type     => [name ++ "=" ++ type]

def words (g : Given) : List String :=
  g.spelling :: g.values

-- No value starts like a flag, and the name of a scalar ends where its type starts.
structure IsPlain (g : Given) : Prop where
  values : ∀ value ∈ g.values, value.toList.head? ≠ some '-'
  scalar : ∀ {name type}, g = .scalar name type → name ≠ "" ∧ '=' ∉ name.toList ∧ type ≠ ""

-- What an option is set to.
def value? (option : OptionName) : Given → Option Data
  | switch f             => if f.option = option then some (.bool f.isOn) else none
  | one f value          => if f.option = option then some (.text value) else none
  | several f first rest =>
    if f.option = option then some (Settings.ofTexts (first :: rest)) else none
  | debug | scalar _ _   => none

-- The type that a scalar is mapped to.
def type? (scalar : String) : Given → Option String
  | .scalar name type => if name = scalar then some type else none
  | _                 => none

def effect : Given → Effect
  | debug         => .debug
  | switch f      => .switch f.option f.isOn
  | one f _       => .one f.option
  | several f _ _ => .several f.option
  | scalar _ _    => .scalar

-- Arguments with what is given after them.
def added (a : Arguments) : Given → Arguments
  | debug                => { a with debug := true }
  | switch f             => a.set f.option (.bool f.isOn)
  | one f value          => a.set f.option (.text value)
  | several f first rest => a.set f.option (Settings.ofTexts (first :: rest))
  | scalar name type     => { a with scalars := a.scalars ++ [(name, type)] }

end Given

-- Settings with what is given set over a base: for each option the last value, and for each scalar
-- the last type. All else is as in the base.
structure Overlaid (given : List Given) (base s : Settings) : Prop where
  options : ∀ option ≠ .customScalars,
    s option = (given.reverse.findSome? (·.value? option)).getD (base option)
  scalars : ∀ {entries}, base .customScalars = .table entries → ∃ updated,
    s .customScalars = .table updated ∧
      ((entries.map Prod.fst).Nodup → (updated.map Prod.fst).Nodup) ∧
      ∀ scalar, Data.lookup scalar updated =
        ((given.reverse.findSome? (·.type? scalar)).map .text).or (Data.lookup scalar entries)
  untouched : (∀ g ∈ given, ∀ scalar, g.type? scalar = none) →
    s .customScalars = base .customScalars

variable {g : Given} {given : List Given} {flag : Flag} {s : String}
  {rest values strays : List String} {groups : List Group} {a : Arguments} {base : Settings}
  {option : OptionName} {entries : List (String × Data)} {key : String}

-- Words and groups

theorem Flag.ofSpelling?_dashes (h : Flag.ofSpelling? s = some flag) :
    s.toList.head? = some '-' ∧ s ≠ "--" := by
  have hall : ∀ entry ∈ Flag.spelled, entry.1.toList.head? = some '-' ∧ entry.1 ≠ "--" := by
    decide
  obtain ⟨entry, hf, rfl⟩ := Option.map_eq_some_iff.mp h
  have hs : entry.1 = s := by simpa using List.find?_some hf
  exact hs ▸ hall entry (List.mem_of_find?_eq_some hf)

theorem readWord_value (h : s.toList.head? ≠ some '-') : readWord s = .ok (.value s) := by
  simp [readWord, h]

theorem readWord_flag (h : Flag.ofSpelling? s = some flag) :
    readWord s = .ok (.flag flag none) := by
  simp [readWord, (Flag.ofSpelling?_dashes h).left, h]

theorem exists_flag (g : Given) :
    ∃ flag, Flag.ofSpelling? g.spelling = some flag ∧ flag.effect = g.effect := by
  cases g
  case debug | scalar => exact ⟨_, rfl, rfl⟩
  case switch f | one f _ | several f _ _ => cases f <;> exact ⟨_, rfl, rfl⟩

theorem readGroups_values (hv : ∀ value ∈ values, value.toList.head? ≠ some '-')
    (h : readGroups rest = .ok (strays, groups)) :
    readGroups (values ++ rest) = .ok (values ++ strays, groups) := by
  induction values
  case nil => exact h
  case cons value values hi =>
    rw [List.forall_mem_cons] at hv
    have hne : value ≠ "--" := by
      rintro rfl
      exact hv.left <| by decide
    rw [List.cons_append, readGroups, if_neg hne, readWord_value hv.left, hi hv.right]
    rfl

-- A group ends where the next one starts, since that is spelled like a flag and its values are not.
theorem readGroups_words (hg : g.IsPlain) (h : readGroups rest = .ok ([], groups)) :
    ∃ flag, flag.effect = g.effect ∧
      readGroups (g.words ++ rest) = .ok ([], ⟨.flag flag none, g.values⟩ :: groups) := by
  have ⟨flag, hflag, heffect⟩ := exists_flag g
  refine ⟨flag, heffect, ?_⟩
  rw [Given.words, List.cons_append, readGroups, if_neg (Flag.ofSpelling?_dashes hflag).right,
    readWord_flag hflag, readGroups_values hg.values h, List.append_nil]
  rfl

theorem cutAtEquals_append {before after : List Char} (h : '=' ∉ before) :
    cutAtEquals (before ++ '=' :: after) = (before, some after) := by
  have hspan : (before ++ '=' :: after).span (· != '=') = (before, '=' :: after) := by
    have hb : ∀ c ∈ before, (c != '=') = true := by
      intro c hc
      rw [bne_iff_ne]
      rintro rfl
      exact h hc
    rw [List.span_eq_takeWhile_dropWhile, List.takeWhile_append_of_pos hb,
      List.dropWhile_append_of_pos hb]
    simp
  rw [cutAtEquals, hspan]

theorem readScalar?_pair {name type : String} (hn : name ≠ "") (he : '=' ∉ name.toList)
    (ht : type ≠ "") : readScalar? (name ++ "=" ++ type) = some (name, type) := by
  have hcut : cutAtEquals (name ++ "=" ++ type).toList = (name.toList, some type.toList) := by
    rw [← cutAtEquals_append he]
    simp
  rw [readScalar?, hcut]
  simp [hn, ht]

theorem follow_group (hg : g.IsPlain) (h : flag.effect = g.effect) :
    follow a [] (⟨.flag flag none, g.values⟩ :: groups) = follow (g.added a) [] groups := by
  rw [follow, h]
  cases g
  case scalar name type =>
    have ⟨hn, he, ht⟩ := hg.scalar rfl
    simp [Given.effect, Given.values, takeOne, bind, Except.bind, readScalar?_pair hn he ht,
      Given.added]
  all_goals rfl

-- What is given is read group by group.
theorem read_words (h : ∀ g ∈ given, g.IsPlain) :
    read (given.flatMap Given.words) = .ok (.run (given.foldl Given.added .none)) := by
  suffices hgroups : ∃ groups, readGroups (given.flatMap Given.words) = .ok ([], groups) ∧
      ∀ a, follow a [] groups = .ok (.run (given.foldl Given.added a)) by
    have ⟨groups, hread, hfollow⟩ := hgroups
    rw [read, hread]
    exact hfollow .none
  induction given
  case nil => exact ⟨[], rfl, fun _ => rfl⟩
  case cons g given hi =>
    rw [List.forall_mem_cons] at h
    have ⟨groups, hread, hfollow⟩ := hi h.right
    have ⟨flag, heffect, hwords⟩ := readGroups_words h.left hread
    refine ⟨_, hwords, fun a => ?_⟩
    rw [follow_group h.left heffect]
    exact hfollow (g.added a)

-- Options

theorem setAll_set {name : OptionName} {value : Data} :
    base.setAll (a.set name value).values option =
      if name = option then value else base.setAll a.values option := by
  simp [Arguments.set, Settings.setAll, Settings.set, eq_comm]

theorem setAll_added : base.setAll (g.added a).values option =
    (g.value? option).getD (base.setAll a.values option) := by
  cases g
  case debug | scalar => rfl
  all_goals
    rw [Given.added, setAll_set, Given.value?]
    split <;> rfl

-- The last of the values that an option is set to counts.
theorem setAll_given : base.setAll (given.foldl Given.added .none).values option =
    (given.reverse.findSome? (·.value? option)).getD (base option) := by
  induction given using List.reverseRecOn
  case nil => rfl
  case append_singleton given g hi =>
    rw [List.foldl_append, List.foldl_cons, List.foldl_nil, setAll_added, hi, List.reverse_append,
      List.reverse_singleton, List.singleton_append, List.findSome?_cons]
    cases g.value? option <;> rfl

-- No flag sets the scalars as a whole.
theorem setAll_customScalars :
    base.setAll (given.foldl Given.added .none).values .customScalars = base .customScalars := by
  have hg (g : Given) : g.value? .customScalars = none := by
    cases g
    case debug | scalar => rfl
    case switch f | one f _ | several f _ _ => cases f <;> rfl
  rw [setAll_given, List.findSome?_eq_none_iff.mpr fun g _ => hg g]
  rfl

theorem overlay_of_ne (h : option ≠ .customScalars) :
    a.overlay base option = base.setAll a.values option := by
  unfold Arguments.overlay
  cases a.scalars
  case nil => rfl
  case cons =>
    cases base.setAll a.values .customScalars
    case table => exact Settings.set_of_ne _ _ h
    all_goals rfl

-- Scalars

-- The entries of a table with those of some scalars put in, one after the other.
def withScalars (entries : List (String × Data)) (scalars : List (String × String)) :
    List (String × Data) :=
  scalars.foldl (fun entries (name, type) => Data.insert name (.text type) entries) entries

theorem overlay_customScalars (h : base.setAll a.values .customScalars = .table entries) :
    a.overlay base .customScalars = .table (withScalars entries a.scalars) := by
  unfold Arguments.overlay
  cases hs : a.scalars
  case nil => exact h
  case cons => simp [h, withScalars]

theorem nodup_withScalars {scalars : List (String × String)} (h : (entries.map Prod.fst).Nodup) :
    ((withScalars entries scalars).map Prod.fst).Nodup := by
  induction scalars generalizing entries
  case nil => exact h
  case cons scalar scalars hi => exact hi <| Data.nodup_insert h

theorem lookup_added : Data.lookup key (withScalars entries (g.added a).scalars) =
    ((g.type? key).map .text).or (Data.lookup key (withScalars entries a.scalars)) := by
  cases g
  case scalar name type =>
    rw [Given.added, withScalars, List.foldl_append, List.foldl_cons, List.foldl_nil, ← withScalars]
    by_cases hn : name = key
    case pos => simp [hn, Given.type?]
    case neg => simp [Data.lookup_insert_of_ne (Ne.symm hn), Given.type?, hn]
  all_goals rfl

-- The last of the types that a scalar is mapped to counts.
theorem lookup_given :
    Data.lookup key (withScalars entries (given.foldl Given.added .none).scalars) =
      ((given.reverse.findSome? (·.type? key)).map .text).or (Data.lookup key entries) := by
  induction given using List.reverseRecOn
  case nil => rfl
  case append_singleton given g hi =>
    rw [List.foldl_append, List.foldl_cons, List.foldl_nil, lookup_added, hi, List.reverse_append,
      List.reverse_singleton, List.singleton_append, List.findSome?_cons]
    cases g.type? key <;> rfl

theorem scalars_given (h : ∀ g ∈ given, ∀ name, g.type? name = none) :
    (given.foldl Given.added a).scalars = a.scalars := by
  induction given generalizing a
  case nil => rfl
  case cons g given hi =>
    rw [List.forall_mem_cons] at h
    rw [List.foldl_cons, hi h.right]
    cases g
    case scalar name type => simpa [Given.type?] using h.left name
    all_goals rfl

-- Whatever flags are given in whatever order, they are read, and what they set is set over any
-- settings.
theorem read_overlaid (h : ∀ g ∈ given, g.IsPlain) : ∃ a,
    read (given.flatMap Given.words) = .ok (.run a) ∧
      ∀ base, Overlaid given base (a.overlay base) := by
  refine ⟨_, read_words h, fun base => ?_⟩
  constructor
  case options =>
    intro option hne
    rw [overlay_of_ne hne, setAll_given]
  case scalars =>
    intro entries he
    refine ⟨_, overlay_customScalars <| setAll_customScalars.trans he, nodup_withScalars, ?_⟩
    exact fun name => lookup_given
  case untouched =>
    intro hnone
    have hs : (given.foldl Given.added .none).scalars = [] := scalars_given hnone
    rw [Arguments.overlay, hs]
    exact setAll_customScalars

def someFlags : List Given :=
  [.one .schema "a.graphql", .several .extensions "js" ["jsx"], .switch .noWatchman,
    .scalar "Date" "string", .one .schema "b.graphql", .scalar "Date" "number", .debug]

theorem read_overlaid_someFlags : ∃ a, read ["--schema", "a.graphql", "--extensions", "js", "jsx",
      "--no-watchman", "--custom-scalar", "Date=string", "--schema", "b.graphql", "--custom-scalar",
      "Date=number", "--debug"] = .ok (.run a) ∧
    a.overlay Settings.defaults .schema = .text "b.graphql" ∧
    a.overlay Settings.defaults .extensions = Settings.ofTexts ["js", "jsx"] ∧
    a.overlay Settings.defaults .watchman = .bool false ∧
    a.overlay Settings.defaults .watch = .bool false ∧
    ∃ updated, a.overlay Settings.defaults .customScalars = .table updated ∧
      Data.lookup "Date" updated = some (.text "number") := by
  have hscalar {type : String} (ht : type ≠ "") : (Given.scalar "Date" type).IsPlain := by
    refine ⟨by simp [Given.values], fun he => ?_⟩
    cases he
    exact ⟨by decide, by decide, ht⟩
  have hplain : ∀ g ∈ someFlags, g.IsPlain := by
    simp only [someFlags, List.forall_mem_cons]
    exact ⟨⟨by decide, nofun⟩, ⟨by decide, nofun⟩, ⟨by decide, nofun⟩, hscalar (by decide),
      ⟨by decide, nofun⟩, hscalar (by decide), ⟨by decide, nofun⟩, by simp⟩
  have ⟨a, hread, hover⟩ := read_overlaid hplain
  have ho := (hover Settings.defaults).options
  obtain ⟨updated, hs, _, hl⟩ := (hover Settings.defaults).scalars rfl
  exact ⟨a, hread, ho _ (by decide), ho _ (by decide), ho _ (by decide), ho _ (by decide),
    updated, hs, hl "Date"⟩

end CommandLine

end GraphqlArtifacts
