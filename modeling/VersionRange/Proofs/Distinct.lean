import Mathlib.Data.List.Pairwise
import VersionRange.Version.Precedence

/-!
# Lists without repetitions

Dropping repetitions keeps a sublist in which no earlier element is the same as a later
one, and does nothing to a list that is already like that.
-/

namespace VersionRange

variable {α : Type} {same : α → α → Bool}

theorem distinctBy_sublist (list : List α) : (distinctBy same list).Sublist list := by
  induction list with
  | nil => exact List.Sublist.refl []
  | cons a rest ih => exact (List.filter_sublist.trans ih).cons_cons a

theorem pairwise_distinctBy (list : List α) :
    (distinctBy same list).Pairwise fun a b => same a b = false := by
  induction list with
  | nil => exact List.Pairwise.nil
  | cons a rest ih =>
      refine List.pairwise_cons.mpr ⟨?_, ih.sublist List.filter_sublist⟩
      intro b member
      simpa using (List.mem_filter.mp member).2

theorem distinctBy_eq_self {list : List α} (apart : list.Pairwise fun a b => same a b = false) :
    distinctBy same list = list := by
  induction list with
  | nil => rfl
  | cons a rest ih =>
      obtain ⟨first, others⟩ := List.pairwise_cons.mp apart
      rw [distinctBy, ih others, List.filter_eq_self.mpr]
      intro b member
      simp [first b member]

@[simp]
theorem distinctBy_eq_nil_iff {list : List α} : distinctBy same list = [] ↔ list = [] := by
  cases list <;> simp [distinctBy]

/-- Dropping repetitions goes along with a map that keeps elements apart. -/
theorem distinctBy_map {β : Type} {alike : β → β → Bool} {f : α → β} {list : List α}
    (agree : ∀ a ∈ list, ∀ b ∈ list, alike (f a) (f b) = same a b) :
    distinctBy alike (list.map f) = (distinctBy same list).map f := by
  induction list with
  | nil => rfl
  | cons a rest ih =>
      have others := ih fun b member c among =>
        agree b (List.mem_cons_of_mem a member) c (List.mem_cons_of_mem a among)
      rw [List.map_cons, distinctBy, distinctBy, others, List.filter_map, List.map_cons]
      refine congrArg (fun staying => f a :: staying.map f) (List.filter_congr fun b staying => ?_)
      have member := (distinctBy_sublist rest).subset staying
      rw [Function.comp_apply, agree a List.mem_cons_self b (List.mem_cons_of_mem a member)]

/-- What does not tell elements apart that are the same holds of all elements that stay
exactly if it holds of all elements. -/
theorem forall_mem_distinctBy {p : α → Prop} (respects : ∀ a b, same a b = true → (p a ↔ p b))
    {list : List α} : (∀ a ∈ distinctBy same list, p a) ↔ ∀ a ∈ list, p a := by
  induction list with
  | nil => simp [distinctBy]
  | cons a rest ih =>
      rw [distinctBy, List.forall_mem_cons, List.forall_mem_cons, ← ih]
      refine and_congr_right fun first => ?_
      constructor
      · intro staying b member
        by_cases repeated : same a b = true
        · exact (respects a b repeated).mp first
        · exact staying b (List.mem_filter.mpr ⟨member, by simpa using repeated⟩)
      · intro others b member
        exact others b (List.mem_filter.mp member).1

theorem exists_mem_distinctBy {p : α → Prop} (respects : ∀ a b, same a b = true → (p a ↔ p b))
    {list : List α} : (∃ a ∈ distinctBy same list, p a) ↔ ∃ a ∈ list, p a := by
  have none : (∀ a ∈ distinctBy same list, ¬p a) ↔ ∀ a ∈ list, ¬p a :=
    forall_mem_distinctBy fun a b repeated => not_congr (respects a b repeated)
  simpa using not_congr none

end VersionRange
