import Mathlib.Data.List.Basic
import VersionRange.Version.Parser

/-!
# Cutting texts at separators

Cutting a text at the first separator is undone by putting the separator back, and
cutting a dotted text at its dots gives the pieces that it was made of, provided
that no piece holds a dot itself.
-/

namespace VersionRange

/-- What follows the first part of a text: nothing, or a separator and a second part. -/
def behind (separator : Char) : Option (List Char) → List Char
  | none => []
  | some part => separator :: part

theorem cutAt_eq_iff {separator : Char} {text before : List Char} {after : Option (List Char)} :
    cutAt separator text = (before, after) ↔
      separator ∉ before ∧ text = before ++ behind separator after := by
  induction text generalizing before with
  | nil =>
      cases after <;> simp [cutAt, behind, eq_comm]
      rintro rfl
      simp
  | cons c rest ih =>
      by_cases same : c = separator
      · subst same
        cases before with
        | nil => cases after <;> simp [cutAt, behind, eq_comm]
        | cons d before => simp [cutAt]; grind
      · rcases cut : cutAt separator rest with ⟨front, back⟩
        cases before with
        | nil =>
            cases after <;> simp [cutAt, behind, same, cut]
        | cons d before =>
            have others : cutAt separator rest = (before, after) ↔
                separator ∉ before ∧ rest = before ++ behind separator after := ih
            rw [cut] at others
            simp only [cutAt, if_neg same, cut, Prod.mk.injEq, List.cons.injEq, List.mem_cons,
              not_or, List.cons_append]
            grind

theorem cutAt_append_behind {separator : Char} {before : List Char}
    (absent : separator ∉ before) (after : Option (List Char)) :
    cutAt separator (before ++ behind separator after) = (before, after) :=
  cutAt_eq_iff.mpr ⟨absent, rfl⟩

theorem mem_intercalate {separator : List Char} {pieces : List (List Char)} {c : Char}
    (member : c ∈ separator.intercalate pieces) :
    c ∈ separator ∨ ∃ piece ∈ pieces, c ∈ piece := by
  induction pieces with
  | nil => simp at member
  | cons piece rest ih =>
      cases rest with
      | nil => exact .inr ⟨piece, by simp, by simpa using member⟩
      | cons next rest =>
          rw [List.intercalate_cons_cons, List.mem_append, List.mem_append] at member
          rcases member with (inside | between) | later
          · exact .inr ⟨piece, by simp, inside⟩
          · exact .inl between
          · rcases ih later with between | ⟨other, among, inside⟩
            · exact .inl between
            · exact .inr ⟨other, by simp [among], inside⟩

theorem mem_dotted {pieces : List (List Char)} {c : Char} (member : c ∈ dotted pieces) :
    c = '.' ∨ ∃ piece ∈ pieces, c ∈ piece := by
  simpa using mem_intercalate member

theorem dotted_splitOn (text : List Char) : dotted (text.splitOn '.') = text :=
  List.intercalate_splitOn '.'

theorem splitOn_dotted {pieces : List (List Char)} (nonempty : pieces ≠ [])
    (noDot : ∀ piece ∈ pieces, '.' ∉ piece) : (dotted pieces).splitOn '.' = pieces :=
  List.splitOn_intercalate '.' noDot nonempty

section Runs

variable {p : Char → Bool} {front rest : List Char}

theorem takeWhile_front (inside : ∀ c ∈ front, p c = true)
    (boundary : ∀ c, rest.head? = some c → p c = false) :
    (front ++ rest).takeWhile p = front := by
  have none : rest.takeWhile p = [] := by
    cases rest with
    | nil => rfl
    | cons c more => simp [boundary c rfl]
  rw [List.takeWhile_append_of_pos inside, none, List.append_nil]

theorem dropWhile_front (inside : ∀ c ∈ front, p c = true)
    (boundary : ∀ c, rest.head? = some c → p c = false) :
    (front ++ rest).dropWhile p = rest := by
  rw [List.dropWhile_append_of_pos inside]
  cases rest with
  | nil => rfl
  | cons c more => simp [boundary c rfl]

end Runs

end VersionRange
