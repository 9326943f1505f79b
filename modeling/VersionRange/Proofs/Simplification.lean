import VersionRange.Proofs.Fallible
import VersionRange.Range

/-!
# Simplification

Groups are left as they are unless one of them admits every version or one of their
comparators admits none; they then come down to a comparator of theirs.  The search
for a group that admits every version stumbles over a group without comparators,
unless it has come to an end before.
-/

namespace VersionRange

open Fallible

namespace Range

/-- Each group has a comparator that is not all-inclusive, and none that is
all-exclusive. -/
def Irreducible (groups : List (List Comparator)) : Prop :=
  ∀ group ∈ groups, (∃ c ∈ group, c.isAllInclusive = false) ∧ ∀ c ∈ group, c.isAllExclusive = false

variable {groups : List (List Comparator)}

theorem all_isAllInclusive_eq_false_iff {group : List Comparator} :
    group.all Comparator.isAllInclusive = false ↔ ∃ c ∈ group, c.isAllInclusive = false := by
  simp

theorem allInclusive?_eq_none_iff :
    allInclusive? groups = .ok none ↔ ∀ group ∈ groups, ∃ c ∈ group, c.isAllInclusive = false := by
  unfold allInclusive?
  cases search : groups.find? fun group => group.all Comparator.isAllInclusive with
  | none => simpa using search
  | some group =>
      obtain ⟨all, -⟩ := List.find?_eq_some_iff_append.mp search
      have member := List.mem_of_find?_eq_some search
      refine iff_of_false ?_ fun others => ?_
      · cases group <;> simp
      · rw [all_isAllInclusive_eq_false_iff.mpr (others group member)] at all
        cases all

theorem mem_of_allInclusive? {c : Comparator} (found : allInclusive? groups = .ok (some c)) :
    ∃ group ∈ groups, (∀ d ∈ group, d.isAllInclusive = true) ∧ c ∈ group := by
  unfold allInclusive? at found
  split at found
  · cases found
  · cases found
  next first rest search =>
    cases found
    have all := List.find?_some search
    exact ⟨_, List.mem_of_find?_eq_some search, List.all_eq_true.mp all, List.mem_cons_self⟩

/-- The search fails at a group without comparators with no all-inclusive group before it. -/
theorem allInclusive?_eq_error_iff {fault : Fault} :
    allInclusive? groups = .error fault ↔
      fault = .emptyGroup ∧
        Preceded (· = []) (fun group => ∃ c ∈ group, c.isAllInclusive = false) groups := by
  have search : groups.find? (fun group => group.all Comparator.isAllInclusive) = some [] ↔
      Preceded (· = []) (fun group => ∃ c ∈ group, c.isAllInclusive = false) groups := by
    rw [List.find?_eq_some_iff_append]
    simp [Preceded]
  rw [← search]
  unfold allInclusive?
  constructor
  · intro fails
    split at fails
    · cases fails
    next empty =>
      cases fails
      exact ⟨rfl, empty⟩
    · cases fails
  · rintro ⟨rfl, empty⟩
    rw [empty]

theorem simplify_eq_error_iff {fault : Fault} :
    simplify groups = .error fault ↔ allInclusive? groups = .error fault := by
  unfold simplify
  rw [bind_eq_error_iff]
  refine or_iff_left ?_
  rintro ⟨_ | c, -, rest⟩
  · simp only [pure_eq_ok] at rest
    split at rest <;> cases rest
  · cases rest

/-- What the groups come down to: a comparator of a group that admits every version, or
else a comparator that admits none, or else the groups themselves. -/
theorem simplify_outcomes {range : Range} {record : Option JournalRecord}
    (simplified : simplify groups = .ok (range, record)) :
    (∃ group ∈ groups, (∀ c ∈ group, c.isAllInclusive = true) ∧
        ∃ c ∈ group, range.groups = [[c]]) ∨
      ((∀ group ∈ groups, ∃ c ∈ group, c.isAllInclusive = false) ∧
        ∃ c ∈ groups.flatten, c.isAllExclusive = true ∧ range.groups = [[c]]) ∨
      range.groups = groups ∧ Irreducible groups := by
  unfold simplify at simplified
  obtain ⟨_ | c, found, rest⟩ := bind_eq_ok_iff.mp simplified
  · have notAll := allInclusive?_eq_none_iff.mp found
    simp only [pure_eq_ok] at rest
    split at rest
    next c search =>
      cases rest
      exact .inr (.inl ⟨notAll, c, List.mem_of_find?_eq_some search, List.find?_some search, rfl⟩)
    next search =>
      cases rest
      refine .inr (.inr ⟨rfl, fun group member => ⟨notAll group member, fun c inside => ?_⟩⟩)
      simpa using List.find?_eq_none.mp search c (List.mem_flatten.mpr ⟨group, member, inside⟩)
  · obtain ⟨group, member, all, inside⟩ := mem_of_allInclusive? found
    cases rest
    exact .inl ⟨group, member, all, c, inside, rfl⟩

theorem simplify_cases {range : Range} {record : Option JournalRecord}
    (simplified : simplify groups = .ok (range, record)) :
    (∃ c ∈ groups.flatten, (c.isAllInclusive = true ∨ c.isAllExclusive = true) ∧
      range.groups = [[c]]) ∨
        range.groups = groups ∧ Irreducible groups := by
  rcases simplify_outcomes simplified with
    ⟨group, member, all, c, inside, single⟩ | ⟨-, c, inside, exclusive, single⟩ | same
  · exact .inl ⟨c, List.mem_flatten.mpr ⟨group, member, inside⟩, .inl (all c inside), single⟩
  · exact .inl ⟨c, inside, .inr exclusive, single⟩
  · exact .inr same

theorem simplify_of_irreducible (irreducible : Irreducible groups) :
    simplify groups = .ok (⟨groups⟩, none) := by
  have noneAll := allInclusive?_eq_none_iff.mpr fun group member => (irreducible group member).1
  have noneExclusive : groups.flatten.find? Comparator.isAllExclusive = none := by
    refine List.find?_eq_none.mpr fun c inside => ?_
    obtain ⟨group, member, among⟩ := List.mem_flatten.mp inside
    simp [(irreducible group member).2 c among]
  simp [simplify, noneAll, noneExclusive]

theorem simplify_succeeds_iff_of_single {group : List Comparator} :
    (∃ range record, simplify [group] = .ok (range, record)) ↔ group ≠ [] := by
  have fails (fault : Fault) :
      simplify [group] = .error fault ↔ fault = .emptyGroup ∧ group = [] := by
    rw [simplify_eq_error_iff, allInclusive?_eq_error_iff]
    simp
  cases outcome : simplify [group] with
  | ok result =>
      refine iff_of_true ⟨result.1, result.2, rfl⟩ fun empty => ?_
      rw [(fails .emptyGroup).mpr ⟨rfl, empty⟩] at outcome
      cases outcome
  | error fault => simp [((fails fault).mp outcome).2]

theorem simplify_single (c : Comparator) :
    ∃ record, simplify [[c]] = .ok (⟨[[c]]⟩, record) := by
  cases all : c.isAllInclusive with
  | true => exact ⟨none, by simp [simplify, allInclusive?, all]⟩
  | false =>
      cases exclusive : c.isAllExclusive with
      | true => exact ⟨some (.simplified c), by simp [simplify, allInclusive?, all, exclusive]⟩
      | false => exact ⟨none, by simp [simplify, allInclusive?, all, exclusive]⟩

theorem simplify_any_cons (options : ParseOptions) (rest : List (List Comparator)) :
    ∃ record, simplify ([.any options] :: rest) = .ok (⟨[[.any options]]⟩, record) := by
  simp [simplify, allInclusive?, Comparator.isAllInclusive]

section Map

variable {f : Comparator → Comparator} (inclusive : ∀ c, (f c).isAllInclusive = c.isAllInclusive)
  (groups)

include inclusive

theorem allInclusive?_map : allInclusive? (groups.map (List.map f)) =
    (allInclusive? groups).map (Option.map f) := by
  have search : (groups.map (List.map f)).find? (fun group => group.all Comparator.isAllInclusive) =
      (groups.find? fun group => group.all Comparator.isAllInclusive).map (List.map f) := by
    simp [List.find?_map, Function.comp_def, inclusive]
  unfold allInclusive?
  rw [search]
  cases groups.find? fun group => group.all Comparator.isAllInclusive with
  | none => rfl
  | some group => cases group <;> rfl

/-- What the groups come down to depends on nothing but which comparators are all-inclusive
and which are all-exclusive. -/
theorem simplify_map (exclusive : ∀ c, (f c).isAllExclusive = c.isAllExclusive) :
    (simplify (groups.map (List.map f))).map Prod.fst =
      ((simplify groups).map Prod.fst).map fun range => ⟨range.groups.map (List.map f)⟩ := by
  have search : (groups.map (List.map f)).flatten.find? Comparator.isAllExclusive =
      (groups.flatten.find? Comparator.isAllExclusive).map f := by
    simp [← List.map_flatten, List.find?_map, Function.comp_def, exclusive]
  unfold simplify
  rw [allInclusive?_map groups inclusive]
  cases allInclusive? groups with
  | error fault => rfl
  | ok found =>
      cases found with
      | some c => rfl
      | none =>
          simp only [Except.map, Option.map_none, ok_bind, search]
          cases groups.flatten.find? Comparator.isAllExclusive <;> rfl

end Map

end Range

end VersionRange
