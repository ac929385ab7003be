import GraphqlArtifacts.Config.Access
import GraphqlArtifacts.Proofs.Data.Equality
import GraphqlArtifacts.Proofs.Data.Lookup

namespace GraphqlArtifacts

-- The values of the type that an option has. A table has each of its keys once.
def OptionName.Takes : OptionName → Data → Prop
  | .schema, d | .source, d | .language, d | .artifactDirectory, d => ∃ s, d = .text s
  | .extensions, d | .includes, d | .excludes, d => ∃ texts, d = Settings.ofTexts texts
  | .customScalars, d => ∃ types : List (String × String), (types.map Prod.fst).Nodup ∧
      d = .table (types.map fun (name, type) => (name, .text type))
  | .pollInterval, d => ∃ n, d = .int n
  | _, d => ∃ b, d = .bool b

-- What one source of settings sets the options to, if it sets them at all.
abbrev Layer := OptionName → Option Data

namespace Layer

def settings (g : Layer) : Settings := fun name =>
  (g name).getD (Settings.defaults name)

def IsTyped (g : Layer) : Prop :=
  ∀ name d, g name = some d → name.Takes d

-- The settings of layers over the defaults, the strongest layer first.
def merged : List Layer → Settings
  | []        => Settings.defaults
  | g :: rest => (merged rest).merge g.settings

-- What the layers set an option to, the strongest first.
def values (layers : List Layer) (name : OptionName) : List Data :=
  layers.filterMap (· name)

end Layer

variable {name : OptionName} {d : Data} {layers : List Layer} {entries : List (String × Data)}
  {texts texts' : List String}

theorem sameItems_ofTexts :
    Data.sameItems (texts.map .text) (texts'.map .text) = true ↔ texts = texts' := by
  induction texts generalizing texts'
  case nil         => cases texts' <;> simp [Data.sameItems]
  case cons _ _ hi => cases texts' <;> simp [Data.sameItems, Data.same, hi]

theorem same_ofTexts :
    (Settings.ofTexts texts).same (Settings.ofTexts texts') = true ↔
      Settings.ofTexts texts = Settings.ofTexts texts' := by
  have hinj : Function.Injective (List.map Data.text) :=
    List.map_injective_iff.mpr fun _ _ => Data.text.inj
  simp only [Settings.ofTexts, Data.same, sameItems_ofTexts, Data.list.injEq, hinj.eq_iff]

-- Among values of its type an option's default is told by comparing.
theorem OptionName.Takes.same_defaults_iff (h : name.Takes d) :
    d.same (Settings.defaults name) = true ↔ d = Settings.defaults name := by
  cases name
  case includes | excludes =>
    have ⟨texts, ht⟩ := h
    exact ht ▸ same_ofTexts
  case customScalars =>
    have ⟨types, _, ht⟩ := h
    cases types <;> simp [ht, Data.same, Data.sameEntries, Settings.defaults]
  all_goals
    have ⟨value, hv⟩ := h
    simp [hv, Data.same, Data.integer?, Settings.defaults, Settings.ofTexts]

theorem same_defaults_self (name : OptionName) :
    (Settings.defaults name).same (Settings.defaults name) = true := by
  cases name <;> decide +kernel

namespace Layer

-- Typed layers give an option the strongest value that is not the default.
theorem merged_eq (h : ∀ g ∈ layers, g.IsTyped) (name : OptionName) :
    merged layers name =
      ((values layers name).find? (· ≠ Settings.defaults name)).getD (Settings.defaults name) := by
  induction layers
  case nil => rfl
  case cons g rest hi =>
    have hi := hi fun g hm => h g <| .tail _ hm
    cases hg : g name
    case none =>
      simp [merged, Settings.merge, settings, values, hg, same_defaults_self, hi]
    case some d =>
      have hs := (h g (.head _) name d hg).same_defaults_iff
      by_cases hd : d = Settings.defaults name
      case pos =>
        simpa [merged, Settings.merge, settings, values, hg, hd, same_defaults_self] using hi
      case neg => simp [merged, Settings.merge, settings, values, hg, hs, hd]

theorem find?_getD_eq_iff {default : Data} {values : List Data} :
    (values.find? (· ≠ default)).getD default = default ↔ ∀ d ∈ values, d = default := by
  cases hf : values.find? (· ≠ default)
  case none => simpa using hf
  case some d =>
    have hm := List.mem_of_find?_eq_some hf
    have hn : d ≠ default := by simpa using List.find?_some hf
    simp only [Option.getD_some, hn, false_iff]
    exact fun hall => hn <| hall d hm

-- So a value that equals the default does not count, unless there is no other.
theorem merged_eq_strongest_iff (h : ∀ g ∈ layers, g.IsTyped) :
    merged layers name = (values layers name).headD (Settings.defaults name) ↔
      ((values layers name).head? = some (Settings.defaults name) →
        ∀ d ∈ values layers name, d = Settings.defaults name) := by
  rw [merged_eq h]
  cases values layers name
  case nil => simp
  case cons d rest =>
    by_cases hd : d = Settings.defaults name
    case neg => simp [hd]
    case pos => simpa [hd] using @find?_getD_eq_iff (Settings.defaults name) (d :: rest)

end Layer

namespace Settings

-- Each option has a value of its type, or its default.
def IsTyped (s : Settings) : Prop :=
  ∀ name, name.Takes (s name) ∨ s name = defaults name

variable {s : Settings} {texts : List String}

theorem textsFrom_texts (index : Nat) : textsFrom index (texts.map .text) = .ok texts := by
  induction texts generalizing index
  case nil => rfl
  case cons text texts hi => simp [textsFrom, hi, Except.map]

theorem isTyped_defaults : defaults.IsTyped :=
  fun _ => .inr rfl

theorem IsTyped.set {name : OptionName} {d : Data} (h : s.IsTyped) (hd : name.Takes d) :
    (s.set name d).IsTyped := by
  intro other
  by_cases ho : other = name
  case pos => exact .inl <| by simpa [ho] using hd
  case neg => exact set_of_ne s d ho ▸ h other

section

variable (h : s.IsTyped)

include h

theorem IsTyped.exists_extensions : ∃ extensions, s.extensions? = .ok extensions := by
  rcases h .extensions with ⟨texts, ht⟩ | hd
  case inr => exact ⟨none, by simp [extensions?, hd, defaults, Data.holds]⟩
  case inl =>
    simp only [extensions?, ht, ofTexts, Data.items?, textsFrom_texts]
    split
    · exact ⟨none, rfl⟩
    · exact ⟨some texts, rfl⟩

theorem IsTyped.exists_includes : ∃ includes, s.includes = .ok includes := by
  obtain ⟨texts, ht⟩ : ∃ texts, s .includes = ofTexts texts := (h .includes).elim id fun hd => ⟨_, hd⟩
  exact ⟨_, by rw [includes, ht]; rfl⟩

theorem IsTyped.exists_excludes : ∃ excludes, s.excludes = .ok excludes := by
  obtain ⟨texts, ht⟩ : ∃ texts, s .excludes = ofTexts texts := (h .excludes).elim id fun hd => ⟨_, hd⟩
  exact ⟨_, by rw [excludes, ht]; rfl⟩

theorem IsTyped.exists_artifactDirectory : ∃ text, s.artifactDirectory? = .ok text := by
  rcases h .artifactDirectory with ⟨text, ht⟩ | hd
  case inl => exact ⟨some text, by simp [artifactDirectory?, ht, pathText, Except.map]⟩
  case inr => exact ⟨none, by simp [artifactDirectory?, hd, defaults]⟩

theorem IsTyped.exists_customScalars : ∃ types, s.customScalars = .ok types := by
  obtain ⟨entries, he⟩ : ∃ entries, s .customScalars = .table entries := by
    rcases h .customScalars with ⟨types, _, ht⟩ | hd
    case inl => exact ⟨_, ht⟩
    case inr => exact ⟨[], hd⟩
  exact ⟨_, by rw [customScalars, he]; rfl⟩

theorem IsTyped.exists_pollInterval : ∃ n, s.pollInterval = .ok n := by
  obtain ⟨n, hn⟩ : ∃ n, s .pollInterval = .int n := (h .pollInterval).elim id fun hd => ⟨_, hd⟩
  exact ⟨_, by rw [pollInterval, hn]⟩

end

end Settings

end GraphqlArtifacts
