import GraphqlArtifacts.Proofs.Language.Loading
import GraphqlArtifacts.Proofs.Language.Registry

-- Resolving a language leaves its module behind. A path is loaded anew whenever it is resolved, but
-- a name that is no path can find what was left behind for one.

namespace GraphqlArtifacts.PluginRegistry

open ModuleLibrary

-- What is asked of a registry: a language, and where it is a path from.
structure Call where
  directory : Path
  language : String

def Call.use (library : ModuleLibrary) (t : Tree) (call : Call) : Use :=
  .resolve library t call.directory call.language

-- What a call loads for a language that is not registered, if there can be anything at its path.
def moduleLoading? (t : Tree) (call : Call) : Option Loading :=
  let path := (call.directory.join call.language).normalize
  if call.language.toList.contains '\x00' then
    none
  else
    match t.hasEntry path with
    | .error _ => none
    | .ok true => some (.located path)
    | .ok false => some (.named (nameStart ++ call.language))

def loading? (r : PluginRegistry) (t : Tree) (call : Call) : Option Loading :=
  if (r.maker? call.language).isSome then none else moduleLoading? t call

-- What is loaded after some calls.
def loadedAfter (r : PluginRegistry) (library : ModuleLibrary) (t : Tree) (calls : List Call) :
    LoadedModules :=
  Loading.runAll library t (calls.filterMap (r.loading? t)) r.loaded

-- What a call gives after some others.
def resolvedAfter (r : PluginRegistry) (library : ModuleLibrary) (t : Tree) (calls : List Call)
    (c : Call) : Except Fault PluginCandidate :=
  ((r.afterAll <| calls.map <| Call.use library t).resolve library t c.directory c.language).1

-- The plugin that a module makes, or why there is none, told of where the module was looked for.
def pluginOf (location : String) (m : Except ModuleFault LoadedModule) :
    Except Fault PluginCandidate :=
  ((m.bind fun m => m.content.make).map .plugin).mapError fun e => .load (.module location e)

-- One call is for a path. Another is for a name, and starts with the name under which the module
-- at the path is kept.
def Shadows (r : PluginRegistry) (t : Tree) (call c : Call) : Prop :=
  ∃ path name, r.loading? t call = some (.located path) ∧ r.loading? t c = some (.named name) ∧
    nameAt path = firstOf (partsOf name)

variable {r : PluginRegistry} {library : ModuleLibrary} {t : Tree} {c call : Call}
  {calls : List Call} {loaded : LoadedModules} {loading : Loading} {path : Path}
  {language : String}

section Modules

def locationOf : Loading → String
  | .named name => name
  | .located path => path.text

theorem resolveModule_of_some (h : moduleLoading? t c = some loading) :
    resolveModule library t c.directory c.language loaded =
      (pluginOf (locationOf loading) (loading.run library t loaded).1,
        (loading.run library t loaded).2) := by
  unfold moduleLoading? at h
  unfold resolveModule
  dsimp only at h ⊢
  split at h
  case isTrue => cases h
  case isFalse hz =>
    rw [if_neg hz]
    split at h <;> rename_i he <;> simp only [he]
    case h_1 => cases h
    all_goals
      obtain rfl := Option.some.inj h
      rfl

theorem resolveModule_of_none (h : moduleLoading? t c = none) :
    ∃ e, ∀ loaded, resolveModule library t c.directory c.language loaded = (.error e, loaded) := by
  unfold moduleLoading? at h
  unfold resolveModule
  dsimp only at h ⊢
  split at h
  case isTrue hz => exact ⟨_, fun _ => if_pos hz⟩
  case isFalse hz =>
    simp only [if_neg hz]
    split at h <;> rename_i he <;> simp only [he]
    case h_1 => exact ⟨_, fun _ => rfl⟩
    all_goals cases h

end Modules

section Calls

theorem loaded_use : (call.use library t |>.after r).loaded = r.loadedAfter library t [call] := by
  have ho : (call.use library t |>.after r).loaded = _ := congrArg Prod.snd resolve_outcome
  rw [ho, loadedAfter]
  cases hm : r.maker? call.language
  case some => simp [loading?, hm]
  case none =>
    cases hl : moduleLoading? t call
    case some loading => simp [loading?, hm, hl, resolveModule_of_some hl]
    case none =>
      obtain ⟨_, he⟩ := @resolveModule_of_none library t call hl
      simp [loading?, hm, hl, he]

-- Calls register nothing.
theorem maker?_afterCalls :
    (r.afterAll <| calls.map <| Call.use library t).maker? language = r.maker? language := by
  have hu : (calls.map <| Call.use library t).filterMap Use.registered? = [] := by
    simp [Call.use, Use.registered?]
  rw [maker?_afterAll, Use.lastMaker?, hu]
  rfl

theorem loaded_afterCalls :
    (r.afterAll <| calls.map <| Call.use library t).loaded = r.loadedAfter library t calls := by
  induction calls generalizing r
  case nil => rfl
  case cons call calls hi =>
    have hl : ((call.use library t).after r).loading? t = r.loading? t := by
      funext c
      have hm := @maker?_afterCalls r library t [call] c.language
      rw [List.map_singleton, afterAll, List.foldl_cons, List.foldl_nil] at hm
      rw [loading?, loading?, hm]
    rw [List.map_cons, afterAll, List.foldl_cons, ← afterAll, hi, loadedAfter, hl, loaded_use,
      loadedAfter, loadedAfter, ← Loading.runAll_append, ← List.filterMap_append,
      List.singleton_append]

theorem resolvedAfter_of_some (h : r.loading? t c = some loading) :
    r.resolvedAfter library t calls c =
      pluginOf (locationOf loading) (loading.run library t (r.loadedAfter library t calls)).1 := by
  rw [resolvedAfter, resolve_eq, maker?_afterCalls, loaded_afterCalls]
  rw [loading?] at h
  cases hm : r.maker? c.language
  case some => simp [hm] at h
  case none => rw [resolveModule_of_some <| by simpa [hm] using h]

-- What loads nothing gives the same whatever was loaded.
theorem resolvedAfter_of_none (h : r.loading? t c = none) :
    r.resolvedAfter library t calls c = r.resolvedAfter library t [] c := by
  rw [resolvedAfter, resolvedAfter, resolve_eq, resolve_eq, maker?_afterCalls, maker?_afterCalls]
  rw [loading?] at h
  cases hm : r.maker? c.language
  case some => rfl
  case none =>
    obtain ⟨_, he⟩ := @resolveModule_of_none library t c <| by simpa [hm] using h
    simp only [he]

theorem loadedAfter_located (h : r.loading? t call = some (.located path)) :
    r.loadedAfter library t [call] = (library.loadAt t path r.loaded).2 := by
  simp [loadedAfter, h, Loading.run]

end Calls

-- At most one of the earlier calls counts, and only if it shadows the last one.
theorem resolvedAfter_eq_earlier (calls : List Call) (c : Call) :
    ∃ earlier : List Call, earlier.Sublist calls ∧ earlier.length ≤ 1 ∧
      (∀ call ∈ earlier, r.Shadows t call c) ∧
      r.resolvedAfter library t calls c = r.resolvedAfter library t earlier c := by
  cases hl : r.loading? t c
  case none => exact ⟨[], List.nil_sublist _, by simp, nofun, resolvedAfter_of_none hl⟩
  case some loading =>
    simp only [resolvedAfter_of_some hl]
    cases loading
    case located path =>
      exact ⟨[], List.nil_sublist _, by simp, nofun, congrArg _ <| loadAt_fst _⟩
    case named name =>
      have ⟨table, ho, hs⟩ := @loadNamed_after library t r.loaded
        (calls.filterMap <| r.loading? t) name
      cases ho
      case base => exact ⟨[], List.nil_sublist _, by simp, nofun, congrArg _ hs⟩
      case located path hm hn =>
        have ⟨call, hc, hp⟩ := List.mem_filterMap.mp hm
        refine ⟨[call], List.singleton_sublist.mpr hc, by simp, fun call' hc' => ?_, ?_⟩
        · exact List.mem_singleton.mp hc' ▸ ⟨path, name, hp, hl, hn⟩
        · rw [loadedAfter_located hp]
          exact congrArg _ hs

theorem resolvedAfter_shadowed {m : LoadedModule} (h : r.loading? t call = some (.located path))
    (hc : r.loading? t c = some (.named <| nameAt path))
    (hm : (library.loadAt t path r.loaded).1 = .ok m) :
    r.resolvedAfter library t [call] c = pluginOf (nameAt path) (.ok m) := by
  rw [resolvedAfter_of_some hc, loadedAfter_located h, Loading.run, locationOf,
    loadNamed_nameAt <| lookup_loadAt_of_ok hm]

-- A call gives what it gives at first, or after one earlier call that shadows it. So it always
-- gives the same exactly if no such call changes what it gives. One that loads the module at its
-- path gives this module to the name.
theorem resolve_remembers (r : PluginRegistry) (library : ModuleLibrary) (t : Tree) (c : Call) :
    (∀ calls, ∃ earlier : List Call, earlier.Sublist calls ∧ earlier.length ≤ 1 ∧
      (∀ call ∈ earlier, r.Shadows t call c) ∧
      r.resolvedAfter library t calls c = r.resolvedAfter library t earlier c) ∧
    ((∀ calls, r.resolvedAfter library t calls c = r.resolvedAfter library t [] c) ↔
      ∀ call, r.Shadows t call c →
        r.resolvedAfter library t [call] c = r.resolvedAfter library t [] c) ∧
    ∀ call path m, r.loading? t call = some (.located path) →
      r.loading? t c = some (.named <| nameAt path) →
      (library.loadAt t path r.loaded).1 = .ok m →
        r.resolvedAfter library t [call] c = pluginOf (nameAt path) (.ok m) := by
  refine ⟨fun calls => resolvedAfter_eq_earlier calls c, ⟨?always, ?changed⟩, ?shadowed⟩
  case always => exact fun h call _ => h [call]
  case changed =>
    intro h calls
    have ⟨earlier, _, hl, hs, he⟩ := @resolvedAfter_eq_earlier r library t calls c
    match earlier with
    | [] => exact he
    | [call] => exact he.trans <| h call <| hs call <| .head _
    | _ :: _ :: _ => simp at hl
  case shadowed => exact fun _ _ _ => resolvedAfter_shadowed

section Flowish

def flowishFile : Path :=
  ⟨"/", ["plugins", "flowish.py"]⟩

def flowishTree : Tree :=
  ⟨[(["plugins"], .directory), (flowishFile.parts, .file [])]⟩

def flowish : Plugin :=
  { Plugin.javascript with name := "from-path" }

def flowishLibrary : ModuleLibrary :=
  ⟨[(flowishFile, .plugin flowish)], []⟩

def flowishPath : Call :=
  ⟨⟨"/", []⟩, "plugins/flowish.py"⟩

def flowishName : Call :=
  ⟨⟨"/", []⟩, "flowish"⟩

theorem loading?_flowishPath :
    (start []).loading? flowishTree flowishPath = some (.located flowishFile) :=
  rfl

theorem loading?_flowishName :
    (start []).loading? flowishTree flowishName = some (.named <| nameAt flowishFile) := by
  have hn : nameAt flowishFile = "relaycompiler_language_flowish" := by decide +kernel
  rw [hn]
  rfl

theorem loadAt_flowishFile :
    (flowishLibrary.loadAt flowishTree flowishFile []).1 = .ok ⟨.plugin flowish, none⟩ := by
  have hn : flowishFile.name.endsWith ".py" := by decide +kernel
  rw [loadAt, hn]
  rfl

theorem resolve_remembers_flowish :
    let r := start []
    r.loading? flowishTree flowishPath = some (.located flowishFile) ∧
    r.loading? flowishTree flowishName = some (.named <| nameAt flowishFile) ∧
    (flowishLibrary.loadAt flowishTree flowishFile r.loaded).1 = .ok ⟨.plugin flowish, none⟩ ∧
    r.resolvedAfter flowishLibrary flowishTree [flowishPath] flowishName =
      pluginOf (nameAt flowishFile) (.ok ⟨.plugin flowish, none⟩) :=
  ⟨loading?_flowishPath, loading?_flowishName, loadAt_flowishFile,
    (resolve_remembers _ _ _ _).right.right _ _ _ loading?_flowishPath loading?_flowishName
      loadAt_flowishFile⟩

-- There is no module with the name, until one is loaded from a path with this name.
theorem flowish_remembered :
    let r := start []
    r.resolvedAfter flowishLibrary flowishTree [] flowishName =
      .error (.load <| .module "relaycompiler_language_flowish" <|
        .notFound "relaycompiler_language_flowish") ∧
    r.resolvedAfter flowishLibrary flowishTree [flowishPath] flowishName =
      .ok (.plugin flowish) :=
  ⟨rfl, resolvedAfter_shadowed loading?_flowishPath loading?_flowishName loadAt_flowishFile⟩

end Flowish

end GraphqlArtifacts.PluginRegistry
