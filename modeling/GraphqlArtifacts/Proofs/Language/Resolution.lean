import GraphqlArtifacts.Proofs.Files.Walk
import GraphqlArtifacts.Proofs.Language.Registry

namespace GraphqlArtifacts

namespace PluginRegistry

-- The foreseen ends: a plugin, or an error that says why a language has none.
def IsForeseen : Except Fault PluginCandidate → Prop
  | .ok (.plugin _) | .error (.load _) => True
  | _ => False

-- No file system can tell whether there is something at a path.
def IsUnreadable (t : Tree) (directory : Path) (language : String) : Prop :=
  '\x00' ∈ language.toList ∨ t.look (directory.join language).normalize = .error .nameTooLong

variable {r : PluginRegistry} {language : String} {maker : PluginMaker} {library : ModuleLibrary}
  {t : Tree} {directory : Path} {loaded : LoadedModules}

theorem made_isForeseen_iff :
    IsForeseen (made language maker) ↔ ∀ kindName, maker ≠ .ok (.other kindName) := by
  cases h : made language maker
  case error =>
    have ⟨message, hm, he⟩ := made_error_iff.mp h
    simp [hm, ← he, IsForeseen]
  case ok candidate =>
    rw [made_ok_iff.mp h]
    cases candidate <;> simp [IsForeseen]

-- Whatever a module does, it gives a plugin or the reason why it does not.
theorem isForeseen_of_module (plugin : Except ModuleFault Plugin) (location : String) :
    IsForeseen ((plugin.map .plugin).mapError fun e => .load (.module location e)) := by
  cases plugin <;> trivial

theorem resolveModule_isForeseen_iff :
    IsForeseen (resolveModule library t directory language loaded).1 ↔
      ¬ IsUnreadable t directory language := by
  unfold resolveModule IsUnreadable
  by_cases hz : '\x00' ∈ language.toList
  case pos => simp [hz, IsForeseen]
  case neg =>
    cases he : t.hasEntry (directory.join language).normalize
    case error e =>
      have ⟨hl, _⟩ := Tree.hasEntry_error_iff.mp he
      simp [hz, he, hl, IsForeseen]
    case ok isThere =>
      have hl : t.look (directory.join language).normalize ≠ .error .nameTooLong := fun hl => by
        simp [Tree.hasEntry_error_iff.mpr ⟨hl, rfl⟩] at he
      simpa [hz, he, hl] using isForeseen_of_module _ _

-- The name of a language that is no path but is too long for one.
theorem isUnreadable_of_long {place : List String} (hr : directory.IsResolved)
    (hw : t.walk [] directory.parts = .ok place) (hd : t.get? place = some .directory)
    (hs : '/' ∉ language.toList) (hl : Tree.maxNameLength < language.length) :
    IsUnreadable t directory language := by
  have hne {short : String} (h : short.length ≤ Tree.maxNameLength) : language ≠ short :=
    fun he => absurd (he ▸ hl) <| Nat.not_lt.mpr h
  have hp : (directory.child language).IsResolved := hr.child <| hne (by decide)
  right
  rw [Path.join_of_not_mem hs (hne (by decide)) (hne (by decide)), Path.normalize,
    Path.foldParents_of_not_mem hp]
  exact Tree.look_child_tooLong hw hd (hne (by decide)) <| Tree.isTooLong_of_length hl

theorem not_isForeseen_of_unreadable (hm : r.maker? language = none)
    (h : IsUnreadable t directory language) :
    ¬ IsForeseen (r.resolve library t directory language).1 := by
  rw [resolve_eq, hm]
  exact fun hf => resolveModule_isForeseen_iff.mp hf h

-- So what a registered or advertised maker makes is not looked at, and neither is a language that
-- cannot be a path.
theorem resolve_isForeseen_iff : IsForeseen (r.resolve library t directory language).1 ↔
    (∀ kindName, r.maker? language ≠ some (.ok (.other kindName))) ∧
      (r.maker? language = none → ¬ IsUnreadable t directory language) := by
  rw [resolve_eq]
  cases r.maker? language
  case none => simpa using resolveModule_isForeseen_iff
  case some maker => simpa using made_isForeseen_iff

-- A name of so many letters.
def letters (n : Nat) : String :=
  String.ofList <| List.replicate n 'a'

theorem length_letters (n : Nat) : (letters n).length = n := by
  rw [letters, String.length_ofList, List.length_replicate]

theorem not_mem_letters {n : Nat} {c : Char} (h : c ≠ 'a') : c ∉ (letters n).toList := by
  rw [letters, String.toList_ofList, List.mem_replicate]
  exact fun hm => h hm.right

-- A maker makes something else, and a language has a name that is too long.
theorem resolve_unforeseen :
    ¬ IsForeseen (((start []).register "flow" (.ok (.other "dict"))).resolve ⟨[], []⟩ .empty
      ⟨"/", []⟩ "flow").1 ∧
    ¬ IsForeseen ((start []).resolve ⟨[], []⟩ .empty ⟨"/", []⟩ (letters 300)).1 := by
  constructor
  case left =>
    rw [resolve_eq, maker?_register, if_pos rfl]
    exact id
  case right =>
    have hn : letters 300 ≠ "javascript" := fun he => by
      have hl := length_letters 300
      rw [he] at hl
      exact absurd hl <| by decide
    have hl : Tree.maxNameLength < (letters 300).length := by
      rw [length_letters]
      decide
    have hm : (start []).maker? (letters 300) = none := by
      rw [maker?_start, if_neg hn, Data.lookup_nil, Option.or_none]
    exact not_isForeseen_of_unreadable hm <| isUnreadable_of_long (by simp [Path.IsResolved]) rfl
      Tree.get?_nil (not_mem_letters (by decide)) hl

end PluginRegistry

end GraphqlArtifacts
