import GraphqlArtifacts.Flow.Types
import GraphqlArtifacts.Proofs.Flow.Nesting
import GraphqlArtifacts.Proofs.Graphql.Names

-- Types are printed with an object's members each on a line of its own, two spaces further in than
-- the object.

namespace GraphqlArtifacts.Flow

open Graphql (IsName)

variable {brackets : List Bracket} {rest line : List Char} {c : Char} {depth n : Nat}
  {lines : List String}

-- Lines

theorem isIndented_iff (hc : c ≠ ' ') : IsIndented brackets (List.replicate n ' ' ++ c :: rest) ↔
    n + (if ['|', '\x7d'] <+: c :: rest then 2 else 0) = 2 * brackets.count .object := by
  have hspaces : (List.replicate n ' ' ++ c :: rest).takeWhile (· == ' ') = List.replicate n ' ' ∧
      (List.replicate n ' ' ++ c :: rest).dropWhile (· == ' ') = c :: rest := by
    induction n
    case zero      => simp [hc]
    case succ n hi => simpa [List.replicate_succ] using hi
  simp only [IsIndented, ClosesFirst, hspaces.left, hspaces.right, List.length_replicate]

theorem isIndented_start (hc : c ≠ ' ') (hp : c ≠ '|') : IsIndented [] (c :: rest) := by
  have h := @isIndented_iff [] rest c 0 hc
  simp only [List.replicate_zero, List.nil_append] at h
  simp [h, hp.symm]

theorem isIndented_line (h : line.head? = some c) (hc : c ≠ ' ') (hp : c ≠ '|') :
    IsIndented [] (line ++ rest) := by
  obtain ⟨line, rfl⟩ := List.head?_eq_some_iff.mp h
  exact isIndented_start hc hp

-- The line starts with what a member starts with, not with a space or the end of an object.
def StartsMember (line : List Char) : Prop :=
  ∃ c rest, line = c :: rest ∧ c ≠ ' ' ∧ c ≠ '|'

-- The text can stand inside of so many objects, before any text that can.
def Passes (depth : Nat) (text : List Char) : Prop :=
  ∀ brackets rest, brackets.count .object = depth → Nests brackets rest →
    Nests brackets (text ++ rest)

theorem Passes.of_isQuiet (h : isQuiet line) : Passes depth line :=
  fun _ _ _ hr => hr.quiet h

theorem Passes.append {s s' : List Char} (h : Passes depth s) (h' : Passes depth s') :
    Passes depth (s ++ s') := by
  intro brackets rest hb hr
  rw [List.append_assoc]
  exact h _ _ hb (h' _ _ hb hr)

theorem toList_pushn (s : String) (c : Char) (n : Nat) :
    (s.pushn c n).toList = s.toList ++ List.replicate n c := by
  induction n
  case zero => simp [String.pushn, Nat.repeat]
  case succ n hi =>
    rw [List.replicate_succ', ← List.append_assoc, ← hi]
    simp [String.pushn, Nat.repeat]

theorem toList_objectText (h : lines ≠ []) : (objectText lines depth).toList =
    ['\x7b', '|', '\n'] ++ (lines.flatMap fun line =>
      List.replicate (2 * (depth + 1)) ' ' ++ line.toList ++ [',', '\n']) ++
      List.replicate (2 * depth) ' ' ++ ['|', '\x7d'] := by
  simp [objectText, h, toList_pushn, String.toList_join, List.flatMap_map]

-- Lines inside an object, and then its end.
theorem nests_lines (hl : ∀ line ∈ lines, StartsMember line.toList ∧ Passes (depth + 1) line.toList)
    (hb : brackets.count .object = depth) (h : Nests brackets rest) :
    let text := (lines.flatMap fun line =>
      List.replicate (2 * (depth + 1)) ' ' ++ line.toList ++ [',', '\n']) ++
      (List.replicate (2 * depth) ' ' ++ '|' :: '\x7d' :: rest)
    IsIndented (.object :: brackets) text ∧ Nests (.object :: brackets) text := by
  have hspaces (n : Nat) : isQuiet (List.replicate n ' ') :=
    isQuiet_of_forall fun c hc => by simp [List.eq_of_mem_replicate hc]
  induction lines
  case nil =>
    simp only [List.flatMap_nil, List.nil_append]
    refine ⟨?_, .quiet (hspaces _) (.closeObject h)⟩
    rw [isIndented_iff (by decide)]
    simp [hb]
    omega
  case cons line lines hi =>
    have ⟨hstarts, hpasses⟩ := hl line (.head _)
    have ⟨hi, hn⟩ := hi fun line hm => hl line (.tail _ hm)
    simp only [List.flatMap_cons, List.append_assoc, List.cons_append, List.nil_append]
    constructor
    case left =>
      have ⟨c, s, hs, hc, hp⟩ := hstarts
      rw [hs, List.cons_append, isIndented_iff hc]
      simp [hp.symm, hb]
    case right =>
      refine .quiet (hspaces _) <| hpasses _ _ (by simp [hb]) ?_
      refine .other (by decide) (by simp) (by simp) <| .newline ?_ ?_
      · simpa using hi
      · simpa using hn

theorem passes_objectText
    (hl : ∀ line ∈ lines, StartsMember line.toList ∧ Passes (depth + 1) line.toList) :
    Passes depth (objectText lines depth).toList := by
  intro brackets rest hb h
  by_cases hn : lines = []
  case pos =>
    have ht : (objectText [] depth).toList = ['\x7b', '|', '|', '\x7d'] := by simp [objectText]
    rw [hn, ht]
    exact .openObject (.closeObject h)
  case neg =>
    have ⟨hi, hn'⟩ := nests_lines hl hb h
    rw [toList_objectText hn]
    simpa using .openObject (.newline (by simpa using hi) (by simpa using hn'))

-- Shapes

theorem isQuiet_name {name : String} (h : IsName name) : isQuiet name.toList := by
  obtain ⟨c, rest, hn, hc, hr⟩ := h
  have hname : ∀ c ∈ name.toList, Graphql.isNameContinue c := by
    rw [hn, List.forall_mem_cons]
    exact ⟨Graphql.isNameContinue_of_isNameStart hc, hr⟩
  refine isQuiet_of_forall fun c hm hc => ?_
  have hn := hname c hm
  simp only [List.mem_cons, List.not_mem_nil, or_false] at hc
  obtain rfl | rfl | rfl | rfl | rfl | rfl := hc
  all_goals exact absurd hn (by decide)

def MemberName.key : MemberName → String
  | .input key _ | .response key _ | .mark key => key

-- The keys in a shape are names, and its leaves open and close nothing.
inductive Shape.Fits : Shape → Prop
  | leaf {text : String} (h : isQuiet text.toList) : Fits (.leaf text)
  | nullable {type : Shape} (h : Fits type) : Fits (.nullable type)
  | array {item : Shape} (h : Fits item) : Fits (.array item)
  | object {members : List (MemberName × Shape)} (hn : ∀ m ∈ members, IsName m.1.key)
      (hs : ∀ m ∈ members, Fits m.2) : Fits (.object members)

theorem isQuiet_text {name : MemberName} (h : IsName name.key) :
    isQuiet name.text.toList := by
  have hk := isQuiet_name h
  have hmark (isOptional : Bool) : isQuiet (if isOptional then "?" else "").toList := by
    cases isOptional <;> decide
  cases name
  case input isOptional =>
    simpa [MemberName.text, MemberName.key] using
      isQuiet_append hk <| isQuiet_append (hmark _) (by decide)
  case response isOptional =>
    simpa [MemberName.text, MemberName.key] using isQuiet_append (s := ['+']) (by decide) <|
      isQuiet_append hk <| isQuiet_append (hmark _) (by decide)
  case mark =>
    simpa [MemberName.text, MemberName.key] using isQuiet_append (s := ['+', '$']) (by decide) <|
      isQuiet_append hk (by decide)

theorem startsMember_text {name : MemberName} (h : IsName name.key) (s : List Char) :
    StartsMember (name.text.toList ++ s) := by
  obtain ⟨c, rest, hk, hc, _⟩ := h
  cases name
  case input isOptional =>
    have hname : c ≠ ' ' ∧ c ≠ '|' := ⟨by rintro rfl; contradiction, by rintro rfl; contradiction⟩
    simp only [MemberName.key] at hk
    exact ⟨c, _, by simp [MemberName.text, hk]; rfl, hname⟩
  case response => exact ⟨'+', _, by simp [MemberName.text]; rfl, by decide⟩
  case mark     => exact ⟨'+', _, by simp [MemberName.text]; rfl, by decide⟩

@[simp]
theorem Shape.print_leaf {text : String} : (Shape.leaf text).print depth = text :=
  rfl

@[simp]
theorem Shape.print_nullable {type : Shape} :
    (Shape.nullable type).print depth = "?" ++ type.print depth :=
  rfl

@[simp]
theorem Shape.print_array {item : Shape} :
    (Shape.array item).print depth = "$ReadOnlyArray<" ++ item.print depth ++ ">" :=
  rfl

@[simp]
theorem Shape.print_object {members : List (MemberName × Shape)} :
    (Shape.object members).print depth = objectText (printMembers (depth + 1) members) depth :=
  rfl

@[simp]
theorem Shape.printMembers_nil : printMembers depth [] = [] :=
  rfl

@[simp]
theorem Shape.printMembers_cons {name : MemberName} {type : Shape}
    {members : List (MemberName × Shape)} : printMembers depth ((name, type) :: members) =
      (name.text ++ type.print depth) :: printMembers depth members :=
  rfl

theorem mem_printMembers {line : String} {members : List (MemberName × Shape)}
    (h : line ∈ Shape.printMembers depth members) :
    ∃ m ∈ members, line = m.1.text ++ m.2.print depth := by
  induction members
  case nil => simp at h
  case cons m members hi =>
    have ⟨name, type⟩ := m
    rw [Shape.printMembers_cons, List.mem_cons] at h
    cases h
    case inl h => exact ⟨_, .head _, h⟩
    case inr h =>
      have ⟨m, hm, he⟩ := hi h
      exact ⟨m, .tail _ hm, he⟩

theorem passes_print {shape : Shape} (h : shape.Fits) (depth : Nat) :
    Passes depth (shape.print depth).toList := by
  induction h generalizing depth
  case leaf h => exact .of_isQuiet h
  case nullable hi =>
    rw [Shape.print_nullable, String.toList_append]
    exact .append (.of_isQuiet (by decide)) (hi depth)
  case array hi =>
    intro brackets rest hb h
    have hi := hi depth (.array :: brackets) ('>' :: rest) (by simpa using hb) (.closeArray h)
    simpa using Nests.quiet (s := "$ReadOnlyArray".toList) (by decide) <| .openArray hi
  case object members hn _ hi =>
    rw [Shape.print_object]
    refine passes_objectText fun line hl => ?_
    have ⟨m, hm, he⟩ := mem_printMembers hl
    rw [he, String.toList_append]
    exact ⟨startsMember_text (hn m hm) _,
      .append (.of_isQuiet <| isQuiet_text <| hn m hm) (hi m hm _)⟩

end GraphqlArtifacts.Flow
