import GraphqlArtifacts.Language.PluginModule
import GraphqlArtifacts.Proofs.Data.Lookup
import GraphqlArtifacts.Proofs.Except

-- What is loaded under a name stays there for later loads. What a name stands for changes with it
-- only where a module was loaded from a path.

namespace GraphqlArtifacts

-- A module that was found, unless it breaks when it is loaded.
def LoadedModule.unbroken (m : LoadedModule) : Except ModuleFault LoadedModule :=
  match m.content with
  | .broken message => .error (.failed message)
  | _ => .ok m

namespace ModuleLibrary

variable {library : ModuleLibrary} {t : Tree} {loaded loaded' : LoadedModules} {m : LoadedModule}
  {found : Except ModuleFault LoadedModule} {parts parts' rest : List String}
  {part name key : String} {path : Path}

section Parts

structure AreParts (parts : List String) : Prop where
  ne_nil : parts ≠ []
  dot_not_mem : ∀ part ∈ parts, '.' ∉ part.toList

theorem dot_not_mem_of_mem_splitOn {s part : List Char} (h : part ∈ s.splitOn '.') :
    '.' ∉ part := by
  induction s generalizing part
  case nil =>
    rw [List.splitOn_nil, List.mem_singleton] at h
    simp [h]
  case cons c s hi =>
    rw [List.splitOn_cons_eq_if_modifyHead] at h
    split at h
    case isTrue =>
      cases List.mem_cons.mp h
      case inl h => simp [h]
      case inr h => exact hi h
    case isFalse hc =>
      have ⟨first, more, hs⟩ := List.exists_cons_of_ne_nil <| List.splitOn_ne_nil '.' s
      rw [hs, List.modifyHead_cons] at h
      cases List.mem_cons.mp h
      case inl h =>
        have hf : '.' ∉ first := hi <| hs ▸ .head _
        rw [h, List.mem_cons, not_or]
        exact ⟨fun he => hc <| by simp [← he], hf⟩
      case inr h => exact hi <| hs ▸ .tail _ h

theorem areParts_partsOf (name : String) : AreParts (partsOf name) where
  ne_nil := by simp [partsOf, List.splitOn_ne_nil]
  dot_not_mem := by
    intro part h
    simp only [partsOf, List.mem_reverse, List.mem_map] at h
    obtain ⟨part, hp, rfl⟩ := h
    simpa using dot_not_mem_of_mem_splitOn hp

theorem AreParts.outer (h : AreParts (part :: rest)) (hr : rest ≠ []) : AreParts rest :=
  ⟨hr, fun part hm => h.dot_not_mem part <| .tail _ hm⟩

theorem partsOf_nameOf (h : AreParts parts) : partsOf (nameOf parts) = parts := by
  have hs : (nameOf parts).toList.splitOn '.' = parts.reverse.map String.toList := by
    rw [nameOf, String.toList_intercalate]
    refine List.splitOn_intercalate _ ?_ (by simpa using h.ne_nil)
    simpa using h.dot_not_mem
  rw [partsOf, hs]
  simp

-- Names are told apart by their parts.
theorem nameOf_eq_iff (h : AreParts parts) (h' : AreParts parts') :
    nameOf parts = nameOf parts' ↔ parts = parts' :=
  ⟨fun he => by rw [← partsOf_nameOf h, he, partsOf_nameOf h'], congrArg _⟩

end Parts

section Load

theorem load_fst : (load name m loaded).1 = m.unbroken := by
  unfold load LoadedModule.unbroken
  cases m.content <;> rfl

theorem lookup_load : Data.lookup key (load name m loaded).2 =
    if key = name then m.unbroken.toOption else Data.lookup key loaded := by
  unfold load LoadedModule.unbroken
  by_cases hk : key = name
  case pos => cases m.content <;> simp [hk, Except.toOption]
  case neg =>
    cases m.content <;>
      simp [hk, Data.lookup_filter_of_ne hk, Data.lookup_insert_of_ne hk]

theorem loadFound_fst : (loadFound name found loaded).1 = found.bind LoadedModule.unbroken := by
  cases found
  case error => rfl
  case ok => exact load_fst

theorem lookup_loadFound_of_ne (hk : key ≠ name) :
    Data.lookup key (loadFound name found loaded).2 = Data.lookup key loaded := by
  cases found
  case error => rfl
  case ok => rw [loadFound, lookup_load, if_neg hk]

theorem lookup_loadFound_self :
    Data.lookup name (loadFound name found loaded).2 = Data.lookup name loaded ∨
    Data.lookup name (loadFound name found loaded).2 =
      (found.bind LoadedModule.unbroken).toOption := by
  cases found
  case error => exact .inl rfl
  case ok =>
    rw [loadFound, lookup_load, if_pos rfl]
    exact .inr rfl

end Load

section Names

-- The module that a name stands for, by what was loaded.
def stands (library : ModuleLibrary) (t : Tree) (loaded : LoadedModules) (parts : List String) :
    Except ModuleFault LoadedModule :=
  (library.loadParts t parts loaded).1

-- The module that is found for a name when none was loaded under it.
def find (library : ModuleLibrary) (t : Tree) (loaded : LoadedModules) (part : String)
    (rest : List String) : Except ModuleFault LoadedModule :=
  if rest = [] then
    library.findInstalled (nameOf (part :: rest))
  else
    (library.stands t loaded rest).bind fun m => library.findPart t m rest part

theorem loadParts_of_some (h : Data.lookup (nameOf (part :: rest)) loaded = some m) :
    library.loadParts t (part :: rest) loaded = (.ok m, loaded) := by
  simp only [loadParts, h]

theorem loadParts_of_none (h : Data.lookup (nameOf (part :: rest)) loaded = none) :
    library.loadParts t (part :: rest) loaded =
      loadFound (nameOf (part :: rest)) (library.find t loaded part rest)
        (if rest = [] then loaded else (library.loadParts t rest loaded).2) := by
  rw [loadParts, h, find, stands]
  by_cases hr : rest = [] <;> simp only [hr, if_true, if_false]

theorem stands_of_some (h : Data.lookup (nameOf (part :: rest)) loaded = some m) :
    library.stands t loaded (part :: rest) = .ok m := by
  rw [stands, loadParts_of_some h]

theorem stands_of_none (h : Data.lookup (nameOf (part :: rest)) loaded = none) :
    library.stands t loaded (part :: rest) =
      (library.find t loaded part rest).bind LoadedModule.unbroken := by
  rw [stands, loadParts_of_none h, loadFound_fst]

theorem stands_congr
    (hl : Data.lookup (nameOf (part :: rest)) loaded' = Data.lookup (nameOf (part :: rest)) loaded)
    (hr : rest ≠ [] → library.stands t loaded' rest = library.stands t loaded rest) :
    library.stands t loaded' (part :: rest) = library.stands t loaded (part :: rest) := by
  cases hm : Data.lookup (nameOf (part :: rest)) loaded
  case some m => rw [stands_of_some hm, stands_of_some <| hl.trans hm]
  case none =>
    have hf : library.find t loaded' part rest = library.find t loaded part rest := by
      unfold find
      split
      case isTrue => rfl
      case isFalse h => rw [hr h]
    rw [stands_of_none hm, stands_of_none <| hl.trans hm, hf]

-- More was loaded, but under each name nothing else than what it stands for.
def Grows (library : ModuleLibrary) (t : Tree) (loaded loaded' : LoadedModules) : Prop :=
  ∀ parts, AreParts parts →
    Data.lookup (nameOf parts) loaded' = Data.lookup (nameOf parts) loaded ∨
    Data.lookup (nameOf parts) loaded' = (library.stands t loaded parts).toOption

-- So each name stands for what it did before.
theorem Grows.stands_eq (h : Grows library t loaded loaded') (hp : AreParts parts) :
    library.stands t loaded' parts = library.stands t loaded parts := by
  induction parts
  case nil => rfl
  case cons part rest hi =>
    obtain hl | hl := h _ hp
    case inl => exact stands_congr hl fun hr => hi <| hp.outer hr
    case inr =>
      cases hs : library.stands t loaded (part :: rest)
      case ok m => exact stands_of_some <| hl.trans <| by rw [hs]; rfl
      case error e =>
        -- Nothing was loaded under the name before, and nothing is now.
        have hn : Data.lookup (nameOf (part :: rest)) loaded = none := by
          by_contra hm
          have ⟨m, hm⟩ := Option.ne_none_iff_exists'.mp hm
          cases hs.symm.trans <| stands_of_some hm
        rw [hs] at hl
        exact hs ▸ stands_congr (hl.trans hn.symm) fun hr => hi <| hp.outer hr

-- Loading by a name changes nothing for any other.
theorem loadParts_grows (hp : AreParts parts) :
    Grows library t loaded (library.loadParts t parts loaded).2 := by
  induction parts
  case nil => exact absurd rfl hp.ne_nil
  case cons part rest hi =>
    cases hl : Data.lookup (nameOf (part :: rest)) loaded
    case some m =>
      rw [loadParts_of_some hl]
      exact fun _ _ => .inl rfl
    case none =>
      rw [loadParts_of_none hl]
      have hg : Grows library t loaded
          (if rest = [] then loaded else (library.loadParts t rest loaded).2) := by
        split
        case isTrue => exact fun _ _ => .inl rfl
        case isFalse hr => exact hi <| hp.outer hr
      intro parts' hp'
      by_cases he : parts' = part :: rest
      case pos =>
        subst he
        obtain hs | hs := @lookup_loadFound_self (if rest = [] then loaded else
          (library.loadParts t rest loaded).2) (library.find t loaded part rest)
          (nameOf (part :: rest)) <;> rw [hs]
        · exact hg _ hp'
        · exact .inr <| by rw [stands_of_none hl]
      case neg =>
        rw [lookup_loadFound_of_ne <| (nameOf_eq_iff hp' hp).not.mpr he]
        exact hg _ hp'

end Names

section Paths

theorem dot_not_mem_nameAt : '.' ∉ (nameAt path).toList := by
  rw [nameAt, String.toList_append, List.mem_append, String.toList_map, List.mem_map]
  rintro (h | ⟨c, _, hc⟩)
  case inl => exact absurd h <| by simp [nameStart]
  case inr =>
    split at hc
    case isTrue hw => exact absurd (hc ▸ hw) <| by decide +kernel
    case isFalse => exact absurd hc <| by decide

theorem areParts_nameAt : AreParts [nameAt path] :=
  ⟨nofun, fun _ hm => List.mem_singleton.mp hm ▸ dot_not_mem_nameAt⟩

theorem nameOf_singleton : nameOf [part] = part := by
  simp [nameOf]

theorem nameOf_eq_nameAt_iff (hp : AreParts parts) :
    nameOf parts = nameAt path ↔ parts = [nameAt path] := by
  rw [← nameOf_eq_iff hp areParts_nameAt, nameOf_singleton]

-- What is loaded from a path does not depend on what was loaded before.
theorem loadAt_fst (loaded' : LoadedModules) :
    (library.loadAt t path loaded).1 = (library.loadAt t path loaded').1 := by
  unfold loadAt
  dsimp only
  split
  case isTrue => rfl
  case isFalse => split <;> simp only [load_fst]

theorem lookup_loadAt_of_ne (hk : key ≠ nameAt path) :
    Data.lookup key (library.loadAt t path loaded).2 = Data.lookup key loaded := by
  unfold loadAt
  dsimp only
  split
  case isTrue => rfl
  case isFalse =>
    split
    case h_1 => exact Data.lookup_filter_of_ne hk
    case h_2 => rw [lookup_load, if_neg hk]

-- Neither does what its name stands for then, unless the path is none of a module.
theorem lookup_loadAt_self : (library.loadAt t path loaded).2 = loaded ∨ ∀ loaded',
    Data.lookup (nameAt path) (library.loadAt t path loaded).2 =
      Data.lookup (nameAt path) (library.loadAt t path loaded').2 := by
  unfold loadAt
  dsimp only
  split
  case isTrue => exact .inl rfl
  case isFalse =>
    refine .inr fun loaded' => ?_
    split
    case h_1 => rw [Data.lookup_filter_self, Data.lookup_filter_self]
    case h_2 => rw [lookup_load, lookup_load, if_pos rfl, if_pos rfl]

theorem lookup_loadAt_of_ok (h : (library.loadAt t path loaded).1 = .ok m) :
    Data.lookup (nameAt path) (library.loadAt t path loaded).2 = some m := by
  unfold loadAt at h ⊢
  dsimp only at h ⊢
  split at h
  case isTrue => cases h
  case isFalse hf =>
    rw [if_neg hf]
    split at h
    case h_1 => cases h
    case h_2 he =>
      rw [load_fst] at h
      rw [lookup_load, if_pos rfl, h]
      rfl

theorem loadNamed_nameAt (h : Data.lookup (nameAt path) loaded = some m) :
    library.loadNamed t (nameAt path) loaded = (.ok m, loaded) := by
  have hp : partsOf (nameAt path) = [nameAt path] := by
    have hp : partsOf (nameOf [nameAt path]) = _ := partsOf_nameOf areParts_nameAt
    rwa [nameOf_singleton] at hp
  rw [loadNamed, hp]
  exact loadParts_of_some <| by rwa [nameOf_singleton]

end Paths

section History

-- What is loaded one after the other: by a name, or from a path.
inductive Loading
  | named (name : String)
  | located (path : Path)

namespace Loading

def run (library : ModuleLibrary) (t : Tree) :
    Loading → LoadedModules → Except ModuleFault LoadedModule × LoadedModules
  | named name => library.loadNamed t name
  | located path => library.loadAt t path

def runAll (library : ModuleLibrary) (t : Tree) (loadings : List Loading) (loaded : LoadedModules) :
    LoadedModules :=
  loadings.foldl (fun loaded loading => (loading.run library t loaded).2) loaded

@[simp]
theorem runAll_nil : runAll library t [] loaded = loaded :=
  rfl

@[simp]
theorem runAll_cons {loading : Loading} {loadings : List Loading} :
    runAll library t (loading :: loadings) loaded =
      runAll library t loadings (loading.run library t loaded).2 :=
  rfl

theorem runAll_append {before after : List Loading} :
    runAll library t (before ++ after) loaded =
      runAll library t after (runAll library t before loaded) :=
  List.foldl_append

end Loading

variable {base : LoadedModules} {loadings : List Loading} {loading : Loading} {first : String}

def firstOf (parts : List String) : String :=
  parts.getLastD ""

theorem firstOf_cons (hr : rest ≠ []) : firstOf (part :: rest) = firstOf rest := by
  rw [firstOf, firstOf, List.getLastD_cons, List.getLastD_eq_getLast?, List.getLastD_eq_getLast?,
    List.getLast?_eq_some_getLast hr]
  rfl

-- The tables of modules that a name can go back to: the first one, and those right after a module
-- was loaded from a path under the first part of the name.
inductive Origin (library : ModuleLibrary) (t : Tree) (base : LoadedModules)
    (loadings : List Loading) (first : String) : LoadedModules → Prop
  | base : Origin library t base loadings first base
  | located {path : Path} (hm : .located path ∈ loadings) (hn : nameAt path = first) :
    Origin library t base loadings first (library.loadAt t path base).2

def GoesBack (library : ModuleLibrary) (t : Tree) (base : LoadedModules) (loadings : List Loading)
    (loaded : LoadedModules) (parts : List String) : Prop :=
  ∃ table, Origin library t base loadings (firstOf parts) table ∧
    library.stands t loaded parts = library.stands t table parts

structure Remembers (library : ModuleLibrary) (t : Tree) (base : LoadedModules)
    (loadings : List Loading) (loaded : LoadedModules) : Prop where
  -- Only names with one part are forgotten, those under which a path is loaded.
  kept {part : String} {rest : List String} : AreParts (part :: rest) → rest ≠ [] →
    Data.lookup (nameOf (part :: rest)) loaded = none →
      Data.lookup (nameOf (part :: rest)) base = none
  goesBack {parts : List String} : AreParts parts → GoesBack library t base loadings loaded parts

theorem lookup_loadAt_outer (hp : AreParts (part :: rest)) (hr : rest ≠ []) :
    Data.lookup (nameOf (part :: rest)) (library.loadAt t path loaded).2 =
      Data.lookup (nameOf (part :: rest)) loaded :=
  lookup_loadAt_of_ne <| (nameOf_eq_nameAt_iff hp).not.mpr <| by simp [hr]

theorem Origin.lookup_outer {table : LoadedModules}
    (h : Origin library t base loadings first table) (hp : AreParts (part :: rest))
    (hr : rest ≠ []) :
    Data.lookup (nameOf (part :: rest)) table = Data.lookup (nameOf (part :: rest)) base := by
  cases h
  case base => rfl
  case located => exact lookup_loadAt_outer hp hr

namespace Remembers

theorem start : Remembers library t base loadings base where
  kept _ _ := id
  goesBack _ := ⟨base, .base, rfl⟩

theorem named (h : Remembers library t base loadings loaded) :
    Remembers library t base loadings (library.loadNamed t name loaded).2 := by
  have hg : Grows library t loaded (library.loadNamed t name loaded).2 :=
    loadParts_grows <| areParts_partsOf name
  refine ⟨fun {part rest} hp hr hn => h.kept hp hr ?_, fun hp => ?_⟩
  · by_contra hm
    have ⟨m, hm⟩ := Option.ne_none_iff_exists'.mp hm
    obtain hl | hl := hg _ hp
    · simp [hl, hm] at hn
    · simp [hl, stands_of_some hm, Except.toOption] at hn
  · rw [GoesBack, hg.stands_eq hp]
    exact h.goesBack hp

-- A name with one part goes back to the path if it is the path's name.
theorem goesBack_part (h : Remembers library t base loadings loaded)
    (hm : .located path ∈ loadings) (hp : AreParts [part]) :
    GoesBack library t base loadings (library.loadAt t path loaded).2 [part] := by
  have ⟨table, ho, hs⟩ := h.goesBack hp
  by_cases hn : part = nameAt path
  case pos =>
    subst hn
    obtain hl | hl := @lookup_loadAt_self library t loaded path
    case inl => exact ⟨table, ho, by rwa [hl]⟩
    case inr =>
      refine ⟨_, .located hm rfl, stands_congr ?_ (absurd rfl)⟩
      rw [nameOf_singleton]
      exact hl base
  case neg =>
    refine ⟨table, ho, .trans (stands_congr ?_ (absurd rfl)) hs⟩
    rw [nameOf_singleton]
    exact lookup_loadAt_of_ne hn

-- A longer name that is not loaded goes where the name goes of the module that it is a part of.
theorem goesBack_outer (h : Remembers library t base loadings loaded)
    (hp : AreParts (part :: rest)) (hr : rest ≠ [])
    (ho : GoesBack library t base loadings (library.loadAt t path loaded).2 rest) :
    GoesBack library t base loadings (library.loadAt t path loaded).2 (part :: rest) := by
  have hl : Data.lookup (nameOf (part :: rest)) (library.loadAt t path loaded).2 =
      Data.lookup (nameOf (part :: rest)) loaded := lookup_loadAt_outer hp hr
  cases hl' : Data.lookup (nameOf (part :: rest)) loaded
  case some m =>
    have ⟨table, ho, hs⟩ := h.goesBack hp
    refine ⟨table, ho, .trans ?_ hs⟩
    rw [stands_of_some hl', stands_of_some <| hl.trans hl']
  case none =>
    have ⟨table, ho, hs⟩ := ho
    refine ⟨table, firstOf_cons hr ▸ ho, stands_congr ?_ fun _ => hs⟩
    rw [hl, hl', ho.lookup_outer hp hr, h.kept hp hr hl']

theorem located (h : Remembers library t base loadings loaded) (hm : .located path ∈ loadings) :
    Remembers library t base loadings (library.loadAt t path loaded).2 := by
  refine ⟨fun hp hr hn => h.kept hp hr ?_, fun {parts} hp => ?_⟩
  · rwa [lookup_loadAt_outer hp hr] at hn
  induction parts
  case nil => exact absurd rfl hp.ne_nil
  case cons part rest hi =>
    by_cases hr : rest = []
    case pos => exact hr ▸ h.goesBack_part hm (hr ▸ hp)
    case neg => exact h.goesBack_outer hp hr <| hi <| hp.outer hr

theorem run (h : Remembers library t base loadings loaded) (hm : loading ∈ loadings) :
    Remembers library t base loadings (loading.run library t loaded).2 := by
  cases loading
  case named => exact h.named
  case located => exact h.located hm

theorem runAll {done : List Loading} (h : Remembers library t base loadings loaded)
    (hd : done ⊆ loadings) :
    Remembers library t base loadings (Loading.runAll library t done loaded) := by
  induction done generalizing loaded
  case nil => exact h
  case cons loading done hi =>
    have ⟨hm, hd⟩ := List.cons_subset.mp hd
    exact hi (h.run hm) hd

end Remembers

-- Whatever was loaded, a name stands for what it stands for at first, or right after a module was
-- loaded from a path under the first part of the name.
theorem loadNamed_after (name : String) :
    ∃ table, Origin library t base loadings (firstOf <| partsOf name) table ∧
      (library.loadNamed t name (Loading.runAll library t loadings base)).1 =
        (library.loadNamed t name table).1 :=
  (Remembers.start.runAll <| List.Subset.refl loadings).goesBack <| areParts_partsOf name

end History

end ModuleLibrary

end GraphqlArtifacts
