import GraphqlArtifacts.Proofs.Discovery.Scan

namespace GraphqlArtifacts

open Search (pathText)

-- Where a text with slashes stands in another is found by the texts between the slashes.

namespace Glob

variable {part : List Char} {parts : List (List Char)}

theorem intercalate_concat :
    ['/'].intercalate (parts ++ [part]) = parts.flatMap (· ++ ['/']) ++ part := by
  induction parts
  case nil => simp
  case cons head tail hi =>
    have ⟨next, rest, hr⟩ := List.exists_cons_of_ne_nil (l := tail ++ [part]) (by simp)
    rw [List.cons_append, hr, List.intercalate_cons_cons, ← hr, hi]
    simp

theorem splitSlashes_concat {v : List Char} (hp : ∀ part ∈ parts, '/' ∉ part) (h : '/' ∉ part) :
    ∃ rest later, splitSlashes (['/'].intercalate (parts ++ [part]) ++ v) =
      parts ++ (part ++ rest) :: later := by
  have ⟨rest, later, hv⟩ := exists_splitSlashes v
  refine ⟨rest, later, ?_⟩
  rw [intercalate_concat, List.append_assoc, splitSlashes_flatMap hp, splitSlashes_append h hv]

end Glob

-- A list that is the same with an item at its end and with one at its start has that item only.
theorem eq_replicate_of_append_eq_cons {α : Type} {l : List α} {a b : α} (h : l ++ [b] = a :: l) :
    l = List.replicate l.length b := by
  induction l generalizing a
  case nil => rfl
  case cons c l hi =>
    obtain ⟨rfl, ht⟩ := List.cons.inj h
    calc
      c :: l = l ++ [b] := ht.symm
      _ = List.replicate l.length b ++ [b] := by rw [← hi ht]
      _ = List.replicate (c :: l).length b := List.replicate_succ'.symm

namespace Path

variable {p directory : Path} {source above parts : List String} {part name : String}

-- A path from the root, by names that can stand in one.
structure IsRooted (p : Path) : Prop where
  root : p.isAbsolute
  names : AreNames p.parts

theorem areNames_partsOf (s : List Char) : AreNames (partsOf s) := by
  simp only [AreNames, partsOf, List.mem_map, List.mem_filter]
  rintro _ ⟨part, ⟨hm, hp⟩, rfl⟩
  refine ⟨?_, by simpa using Glob.slash_not_mem hm⟩
  rintro he
  simp_all

theorem IsRooted.join (h : p.IsRooted) (text : String) : (p.join text).IsRooted := by
  by_cases ha : (ofText text).isAbsolute
  case pos =>
    rw [Path.join, if_pos ha]
    exact ⟨ha, areNames_partsOf _⟩
  case neg =>
    rw [Path.join, if_neg ha]
    refine ⟨h.root, fun name hm => ?_⟩
    obtain hm | hm := List.mem_append.mp hm
    · exact h.names name hm
    · exact areNames_partsOf _ name hm

theorem IsRooted.normalize (h : p.IsRooted) :
    p.normalize.root = "/" ∧ AreNames p.normalize.parts := by
  have hr : p.root ≠ "" := by simpa [isAbsolute] using h.root
  exact ⟨if_neg hr, fun name hm => h.names name <| foldParents_subset _ hm⟩

theorem toList_pathText : (pathText parts).toList = ['/'].intercalate (parts.map String.toList) :=
  String.toList_intercalate

theorem toList_text (hr : directory.root = "/") :
    directory.text.toList = '/' :: (pathText directory.parts).toList := by
  simp [text, hr, pathText]

theorem suffix_pathText : name.toList <:+ (pathText (above ++ [name])).toList := by
  rw [toList_pathText, List.map_append, List.map_singleton, Glob.intercalate_concat]
  exact List.suffix_append ..

theorem infix_pathText : part.toList <:+: (pathText (above ++ [part, name])).toList := by
  rw [toList_pathText, show above ++ [part, name] = (above ++ [part]) ++ [name] by simp,
    List.map_append, List.map_singleton, Glob.intercalate_concat]
  exact ⟨(above.map String.toList).flatMap (· ++ ['/']), '/' :: name.toList, by simp⟩

-- Within a text of names, that of a directory starts at a slash, so that it has the names of the
-- directory there, the last one perhaps as a part of a longer one.
theorem exists_names_of_infix {start : List String} {last : String} (hr : directory.root = "/")
    (hd : directory.parts = start ++ [last]) (hs : ∀ part ∈ directory.parts, '/' ∉ part.toList)
    (hp : ∀ part ∈ parts, '/' ∉ part.toList) (hn : parts ≠ [])
    (h : directory.text.toList <:+: (pathText parts).toList) :
    ∃ first firsts rest later, parts.map String.toList =
      first :: firsts ++ (start.map String.toList ++ (last.toList ++ rest) :: later) := by
  obtain ⟨u, v, h⟩ := h
  have hstart : ∀ part ∈ start.map String.toList, '/' ∉ part := by
    simpa using fun part hm => hs part <| by simp [hd, hm]
  have hlast : '/' ∉ last.toList := hs last <| by simp [hd]
  have hsplit : Glob.splitSlashes (pathText parts).toList = parts.map String.toList := by
    rw [toList_pathText]
    exact Glob.splitSlashes_intercalate (by simpa using hn) <| by simpa using hp
  have ⟨first, firsts, hu⟩ := Glob.exists_splitSlashes u
  have ⟨rest, later, hv⟩ := Glob.splitSlashes_concat (v := v) hstart hlast
  refine ⟨first, firsts, rest, later, ?_⟩
  rw [← hsplit, ← h, toList_text hr, List.append_assoc, List.cons_append, Glob.splitSlashes_join,
    hu, toList_pathText, hd, List.map_append, List.map_singleton, hv]

-- A path into the directory has enough names for that only if none is left out above it, and then
-- each name of the directory is where the next one is.
theorem shifted_of_infix {start : List String} {last : String} (hr : directory.root = "/")
    (hd : directory.parts = start ++ [last]) (hs : ∀ part ∈ directory.parts, '/' ∉ part.toList)
    (hn : '/' ∉ name.toList) (hp : directory.parts = source ++ above)
    (h : directory.text.toList <:+: (pathText (above ++ [name])).toList) :
    source = [] ∧ last.toList <+: name.toList ∧ ∃ first,
      start.map String.toList ++ [last.toList] = first :: start.map String.toList := by
  have hparts : ∀ part ∈ above ++ [name], '/' ∉ part.toList := by
    have habove : ∀ part ∈ above, '/' ∉ part.toList := fun part hm => hs part <| by simp [hp, hm]
    simpa [or_imp, forall_and, hn] using habove
  have ⟨first, firsts, rest, later, hnames⟩ := exists_names_of_infix hr hd hs hparts (by simp) h
  have hlength := congrArg List.length hnames
  have hcount := congrArg List.length (hp.symm.trans hd)
  simp only [List.length_append, List.length_cons, List.length_nil, List.length_map]
    at hlength hcount
  obtain rfl : source = [] := List.length_eq_zero_iff.mp (by omega)
  obtain rfl : firsts = [] := List.length_eq_zero_iff.mp (by omega)
  obtain rfl : later = [] := List.length_eq_zero_iff.mp (by omega)
  obtain rfl : above = start ++ [last] := hp.symm.trans hd
  have hnames : (start.map String.toList ++ [last.toList]) ++ [name.toList] =
      (first :: start.map String.toList) ++ [last.toList ++ rest] := by
    simpa using hnames
  have ⟨hshift, hname⟩ := List.append_inj' hnames rfl
  exact ⟨rfl, ⟨rest, (List.singleton_inj.mp hname).symm⟩, first, hshift⟩

-- When the text of a directory from the root is in that of a path into it from a directory above.
theorem text_infix_iff (hr : directory.root = "/") (hp : directory.parts = source ++ above)
    (hs : ∀ part ∈ directory.parts, '/' ∉ part.toList) (hn : '/' ∉ name.toList) :
    directory.text.toList <:+: (pathText (above ++ [name])).toList ↔
      source = [] ∧ ∃ n part, directory.parts = List.replicate (n + 1) part ∧
        part.toList <+: name.toList := by
  constructor
  case mp =>
    intro h
    rcases List.eq_nil_or_concat' directory.parts with hd | ⟨start, last, hd⟩
    case inl =>
      obtain ⟨rfl, rfl⟩ : source = [] ∧ above = [] := by simpa [hd, eq_comm] using hp
      have hslash : '/' ∈ (pathText ([] ++ [name])).toList := h.subset <| by simp [toList_text hr]
      exact absurd (by simpa [pathText] using hslash) hn
    case inr =>
      have ⟨hsource, hname, first, hshift⟩ := shifted_of_infix hr hd hs hn hp h
      have hrep := eq_replicate_of_append_eq_cons hshift
      rw [← List.map_replicate, List.length_map] at hrep
      have hrep : start = List.replicate start.length last :=
        List.map_injective_iff.mpr (fun _ _ => String.toList_inj.mp) hrep
      refine ⟨hsource, start.length, last, ?_, hname⟩
      rw [hd, List.replicate_succ', ← hrep]
  case mpr =>
    rintro ⟨rfl, n, part, hd, rest, hname⟩
    rw [List.nil_append] at hp
    rw [toList_text hr, ← hp, hd, toList_pathText, toList_pathText, List.map_append,
      List.map_replicate, List.map_singleton, ← hname, Glob.intercalate_concat,
      List.replicate_succ', Glob.intercalate_concat, ← List.replicate_succ', List.replicate_succ]
    exact ⟨part.toList, rest, by simp⟩

end Path

end GraphqlArtifacts
