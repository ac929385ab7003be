import GraphqlArtifacts.Proofs.Except
import GraphqlArtifacts.Proofs.Graphql.Names
import GraphqlArtifacts.Schema.Introspection

-- The levels of types: the lists around a name, and the name in them. A type that is read from a
-- document or from an answer has at most one mark on each level.

namespace GraphqlArtifacts

open Graphql (TypeRef)

namespace Graphql

namespace TypeRef

-- No mark is on a type that has one already.
def isProper : TypeRef → Bool
  | .named _      => true
  | .list item    => item.isProper
  | .nonNull type => !type.isNonNull && type.isProper

-- Which levels of a type are nullable, from outside: each list is one, the last is the named type.
def levels : TypeRef → List Bool
  | .named _      => [true]
  | .list item    => true :: item.levels
  | .nonNull type => false :: type.levels.tail

variable {type type' : TypeRef}

theorem levels_ne_nil : type.levels ≠ [] := by
  cases type <;> exact List.cons_ne_nil _ _

theorem levels_of_not_isNonNull (h : type.isNonNull = false) :
    type.levels = true :: type.levels.tail := by
  cases type
  case nonNull => contradiction
  all_goals rfl

-- A type is told by its levels and its name.
theorem eq_of_levels (h : type.isProper) (h' : type'.isProper)
    (hn : type.baseName = type'.baseName) (hl : type.levels = type'.levels) : type = type' := by
  induction type generalizing type'
  case named name =>
    cases type'
    case named   => exact congrArg _ hn
    case list    => exact absurd (List.cons.inj hl).right.symm levels_ne_nil
    case nonNull => exact absurd (List.cons.inj hl).left (by decide)
  case list item hi =>
    cases type'
    case named   => exact absurd (List.cons.inj hl).right levels_ne_nil
    case list    => exact congrArg _ <| hi h h' hn (List.cons.inj hl).right
    case nonNull => exact absurd (List.cons.inj hl).left (by decide)
  case nonNull inner hi =>
    cases type'
    case nonNull inner' =>
      simp only [isProper, Bool.and_eq_true, Bool.not_eq_true'] at h h'
      refine congrArg _ <| hi h.right h'.right hn ?_
      rw [levels_of_not_isNonNull h.left, levels_of_not_isNonNull h'.left]
      exact congrArg _ (List.cons.inj hl).right
    all_goals exact absurd (List.cons.inj hl).left (by decide)

end TypeRef

namespace Parser

theorem typeRefWithin_yields (fuel : Nat) : Yields (typeRefWithin fuel) fun t => t.isProper := by
  induction fuel
  case zero => exact .after current_follows fun _ => .unexpected _
  case succ fuel hi =>
    unfold typeRefWithin
    have bang {type : TypeRef} (h : type.isProper ∧ type.isNonNull = false) :
        Yields (skip .bang >>= fun b => if b then Pure.pure type.nonNull else Pure.pure type)
          fun t => t.isProper :=
      .after (skip_agrees _) fun _ => .ite (.pure (by simp [TypeRef.isProper, h])) (.pure h.left)
    refine .after (skip_agrees _) fun _ => .ite ?_ ?_
    · exact hi.bind fun _ hp => .after (expect_follows _) fun _ => bang ⟨hp, rfl⟩
    · exact .after name_takes fun _ => bang ⟨rfl, rfl⟩

theorem typeRef_yields : Yields typeRef fun t => t.isProper :=
  .after remaining_agrees fun _ => typeRefWithin_yields _

end Parser

end Graphql

namespace Introspection

variable {kinds : List (String × Data)} {d : Data} {type : TypeRef}

theorem isProper_of_typeRefWithin {fuel : Nat} (h : typeRefWithin kinds fuel d = .ok type) :
    type.isProper := by
  induction fuel generalizing d type
  case zero => contradiction
  case succ fuel hi =>
    unfold typeRefWithin at h
    obtain ⟨kind, _, h⟩ := bind_ok.mp h
    have inner {type : TypeRef} (h : (optional d "ofType" >>= fun d =>
        if d.holds then typeRefWithin kinds fuel d else throw .tooDeep) = .ok type) :
        type.isProper := by
      obtain ⟨d, _, h⟩ := bind_ok.mp h
      split at h
      case isTrue  => exact hi h
      case isFalse => contradiction
    split at h
    case h_1 =>
      obtain ⟨item, hr, h⟩ := bind_ok.mp h
      have hp := inner hr
      cases h
      exact hp
    case h_2 =>
      -- What is marked already is refused.
      obtain ⟨type, hr, h⟩ := bind_ok.mp h
      have hp := inner hr
      cases type
      case nonNull => contradiction
      all_goals
        cases h
        exact hp
    case h_3 =>
      obtain ⟨name, _, h⟩ := bind_ok.mp h
      have h := (guard_ok.mp h).right
      split at h
      case h_2 => contradiction
      case h_1 =>
        split at h
        case isFalse => contradiction
        case isTrue  =>
          cases h
          rfl

theorem isProper_of_typeRef (h : typeRef kinds d = .ok type) : type.isProper :=
  isProper_of_typeRefWithin h

end Introspection

end GraphqlArtifacts
