import GraphqlArtifacts.Language.Registry
import GraphqlArtifacts.Proofs.Data.Lookup
import GraphqlArtifacts.Proofs.Except
import GraphqlArtifacts.Proofs.Text.Order

namespace GraphqlArtifacts

namespace PluginRegistry

-- The maker of a language: what is advertised counts, whether or not it was looked for.
def maker? (r : PluginRegistry) (language : String) : Option PluginMaker :=
  (Data.lookup language r.registered).or (Data.lookup language r.advertised)

-- A use of a registry.
inductive Use
  | register (name : String) (maker : PluginMaker)
  | names
  | resolve (library : ModuleLibrary) (t : Tree) (directory : Path) (language : String)

namespace Use

def after (r : PluginRegistry) : Use → PluginRegistry
  | register name maker => r.register name maker
  | names => r.discover
  | resolve library t directory language => (r.resolve library t directory language).2

def registered? : Use → Option (String × PluginMaker)
  | register name maker => some (name, maker)
  | _ => none

-- The last maker that is registered for a language.
def lastMaker? (uses : List Use) (language : String) : Option PluginMaker :=
  Data.lookup language (uses.filterMap registered?).reverse

end Use

def afterAll (r : PluginRegistry) (uses : List Use) : PluginRegistry :=
  uses.foldl Use.after r

variable {r : PluginRegistry} {name language : String} {maker : PluginMaker} {u : Use}
  {uses : List Use} {library : ModuleLibrary} {t : Tree} {directory : Path}
  {known advertised : List (String × PluginMaker)}

section Discovery

-- Registers what is advertised under one name.
abbrev discoverOne (known : List (String × PluginMaker)) (entry : String × PluginMaker) :
    List (String × PluginMaker) :=
  if (Data.lookup entry.1 known).isSome then known else known ++ [entry]

theorem lookup_discoverOne : Data.lookup name (discoverOne known (language, maker)) =
    (Data.lookup name known).or (if language = name then some maker else none) := by
  unfold discoverOne
  split
  case isTrue h =>
    by_cases hn : language = name
    case pos =>
      obtain ⟨maker', hm⟩ := Option.isSome_iff_exists.mp h
      simp [← hn, hm]
    case neg => simp [hn]
  case isFalse => rw [Data.lookup_append, Data.lookup_cons, Data.lookup_nil]

theorem lookup_discovered : Data.lookup name (advertised.foldl discoverOne known) =
    (Data.lookup name known).or (Data.lookup name advertised) := by
  induction advertised generalizing known
  case nil => simp
  case cons entry advertised hi =>
    have ⟨language, maker⟩ := entry
    rw [List.foldl_cons, hi, lookup_discoverOne, Data.lookup_cons]
    by_cases hn : language = name <;> cases Data.lookup name known <;> simp [hn]

theorem lookup_discover : Data.lookup name r.discover.registered = r.maker? name :=
  lookup_discovered

theorem maker?_discover : r.discover.maker? name = r.maker? name := by
  rw [maker?, lookup_discover]
  simp [discover]

end Discovery

-- A registered maker is used for what it makes, whatever that is.
theorem made_ok_iff {candidate : PluginCandidate} :
    made language maker = .ok candidate ↔ maker = .ok candidate :=
  mapError_ok

-- That it fails is told with the language and its own message.
theorem made_error_iff {e : Fault} : made language maker = .error e ↔
    ∃ message, maker = .error message ∧ .load (.maker language message) = e :=
  mapError_error

theorem made_error_message {e : Fault} (h : made language maker = .error e) :
    ∃ message, maker = .error message ∧ e.kindName = "PluginLoadError" ∧
      e.message = s!"Unable to load language plugin {language}: {message}" := by
  have ⟨message, hm, he⟩ := made_error_iff.mp h
  exact ⟨message, hm, he ▸ rfl, he ▸ rfl⟩

theorem maker?_register : (r.register name maker).maker? language =
    if name = language then some maker else r.maker? language := by
  by_cases hn : name = language
  case pos => simp [maker?, register, hn]
  case neg => simp [maker?, register, hn, Data.lookup_insert_of_ne (Ne.symm hn)]

-- What resolving a language gives, and what is loaded then.
theorem resolve_outcome : let outcome := r.resolve library t directory language
    (outcome.1, outcome.2.loaded) =
      match r.maker? language with
      | some maker => (made language maker, r.loaded)
      | none => resolveModule library t directory language r.loaded := by
  unfold resolve
  split
  case h_1 maker h => simp [maker?, h]
  case h_2 h =>
    dsimp only
    rw [lookup_discover]
    cases r.maker? language <;> rfl

theorem resolve_eq : (r.resolve library t directory language).1 =
    match r.maker? language with
    | some maker => made language maker
    | none => (resolveModule library t directory language r.loaded).1 := by
  rw [congrArg Prod.fst resolve_outcome]
  cases r.maker? language <;> rfl

-- Resolving a language at most looks for what is advertised, and loads modules.
theorem resolve_after : let after := (r.resolve library t directory language).2
    after = r ∨ ∃ loaded, after = { r.discover with loaded } := by
  unfold resolve
  split
  case h_1 => exact .inl rfl
  case h_2 =>
    dsimp only
    split <;> exact .inr ⟨_, rfl⟩

theorem maker?_after : (u.after r).maker? language =
    (Data.lookup language u.registered?.toList).or (r.maker? language) := by
  cases u
  case register name maker =>
    rw [Use.after, maker?_register]
    by_cases hn : name = language <;> simp [Use.registered?, Data.lookup_cons, hn]
  case names => exact maker?_discover
  case resolve library t directory other =>
    obtain h | ⟨loaded, h⟩ := @resolve_after r other library t directory
    · rw [Use.after, h]
      rfl
    · rw [Use.after, h]
      exact maker?_discover

theorem maker?_afterAll : (r.afterAll uses).maker? language =
    (Use.lastMaker? uses language).or (r.maker? language) := by
  induction uses generalizing r
  case nil => rfl
  case cons u uses hi =>
    rw [afterAll, List.foldl_cons, ← afterAll, hi, maker?_after, Use.lastMaker?, Use.lastMaker?]
    cases h : u.registered? <;> simp [h, Data.lookup_append, Option.or_assoc]

theorem maker?_start : (start advertised).maker? language =
    (if language = "javascript" then some (.ok Plugin.javascript) else none).or
      (Data.lookup language advertised) := by
  simp [maker?, start, Data.lookup_cons, eq_comm]

section Names

end Names

end PluginRegistry

end GraphqlArtifacts
