import Mathlib.Data.List.Induction
import VersionRange.Proofs.Version.Constructed

/-!
# The highest of several versions

Versions that are written like version texts are ranked totally, whatever their build.  So
the first of the highest ones is told by two facts: nothing ranks above it, and everything
in front of it ranks below it.  In another order of the same versions another one may come
first, but it has the same rank.
-/

namespace VersionRange

open Std

namespace Version

/-- Legible versions rank like the readable versions that are written like them. -/
theorem exists_twin :
    ∃ twin : Version → Version, ∀ v w : Version, v.Legible → w.Legible →
      v.compare w = (twin v).rank (twin w) := by
  have each (v : Version) : ∃ u : Version, v.Legible → u.Readable ∧ u.chars = v.chars := by
    by_cases legible : v.Legible
    · obtain ⟨u, twin⟩ := legible
      exact ⟨u, fun _ => twin⟩
    · exact ⟨v, fun other => absurd other legible⟩
  choose twin readable using each
  refine ⟨twin, fun v w vLegible wLegible => ?_⟩
  obtain ⟨vReadable, vSame⟩ := readable v vLegible
  obtain ⟨wReadable, wSame⟩ := readable w wLegible
  rw [← compare_eq_of_chars vSame wSame, compare_eq_rank vReadable wReadable]

section Ranking

variable {a b c : Version} (aLegible : a.Legible) (bLegible : b.Legible) (cLegible : c.Legible)

include aLegible in
theorem compare_self_of_legible : a.compare a = .eq := by
  obtain ⟨twin, same⟩ := exists_twin
  rw [same a a aLegible aLegible]
  exact ReflCmp.compare_self

include aLegible bLegible in
theorem compare_eq_gt_iff_of_legible : a.compare b = .gt ↔ b.compare a = .lt := by
  obtain ⟨twin, same⟩ := exists_twin
  rw [same a b aLegible bLegible, same b a bLegible aLegible]
  exact OrientedCmp.gt_iff_lt

include aLegible bLegible cLegible in
theorem compare_eq_lt_of_legible (first : a.compare b ≠ .gt) (second : b.compare c = .lt) :
    a.compare c = .lt := by
  obtain ⟨twin, same⟩ := exists_twin
  rw [same a b aLegible bLegible] at first
  rw [same b c bLegible cLegible] at second
  rw [same a c aLegible cLegible]
  exact TransCmp.lt_of_isLE_of_lt (Ordering.isLE_iff_ne_gt.mpr first) second

end Ranking

theorem highest?_append_singleton (front : List Version) (w : Version) :
    highest? (front ++ [w]) =
      match highest? front with
      | none => some w
      | some best => some (if (w.compare best).isGT then w else best) := by
  cases front with
  | nil => rfl
  | cons v rest => simp [highest?, List.foldl_append]

@[simp]
theorem highest?_eq_none_iff {versions : List Version} :
    highest? versions = none ↔ versions = [] := by
  cases versions <;> simp [highest?]

/-- The version is among the highest, and all that stand in front of it are lower. -/
structure FirstHighest (versions : List Version) (best : Version) : Prop where
  split : ∃ before after, versions = before ++ best :: after ∧ ∀ v ∈ before, v.compare best = .lt
  highest : ∀ v ∈ versions, v.compare best ≠ .gt

theorem FirstHighest.mem {versions : List Version} {best : Version}
    (first : FirstHighest versions best) : best ∈ versions := by
  obtain ⟨before, after, rfl, -⟩ := first.split
  exact List.mem_append_right before List.mem_cons_self

theorem firstHighest_of_highest? {versions : List Version} (legible : ∀ v ∈ versions, v.Legible)
    {best : Version} (found : highest? versions = some best) : FirstHighest versions best := by
  induction versions using List.reverseRecOn generalizing best with
  | nil => cases found
  | append_singleton front w ih =>
      obtain ⟨frontLegible, last⟩ := List.forall_mem_append.mp legible
      have wLegible : w.Legible := last w (List.mem_singleton_self w)
      have same := compare_self_of_legible wLegible
      rw [highest?_append_singleton] at found
      cases earlier : highest? front with
      | none =>
          obtain rfl := highest?_eq_none_iff.mp earlier
          cases found
          exact ⟨⟨[], [], rfl, by simp⟩, by simp [same]⟩
      | some top =>
          have first := ih frontLegible earlier
          have topLegible := frontLegible top first.mem
          rw [earlier] at found
          by_cases above : w.compare top = .gt
          · simp only [above, Ordering.isGT_gt, if_true, Option.some.injEq] at found
            subst found
            have top_lt := (compare_eq_gt_iff_of_legible wLegible topLegible).mp above
            have below (v : Version) (member : v ∈ front) : v.compare w = .lt :=
              compare_eq_lt_of_legible (frontLegible v member) topLegible wLegible
                (first.highest v member) top_lt
            refine ⟨⟨front, [], rfl, below⟩, List.forall_mem_append.mpr ⟨fun v member => ?_, ?_⟩⟩
            · simp [below v member]
            · simp [same]
          · have stays : (w.compare top).isGT = false := by
              cases outcome : w.compare top <;> simp_all
            simp only [stays, Bool.false_eq_true, if_false, Option.some.injEq] at found
            subst found
            obtain ⟨before, after, rfl, lower⟩ := first.split
            exact ⟨⟨before, after ++ [w], by simp, lower⟩,
              List.forall_mem_append.mpr ⟨first.highest, by simpa using above⟩⟩

theorem FirstHighest.compare_eq {versions others : List Version}
    (legible : ∀ v ∈ versions, v.Legible) (perm : others.Perm versions) {best other : Version}
    (first : FirstHighest versions best) (otherFirst : FirstHighest others other) :
    best.compare other = .eq := by
  have bestBelow := otherFirst.highest best (perm.mem_iff.mpr first.mem)
  have otherBelow := first.highest other (perm.mem_iff.mp otherFirst.mem)
  have swapped := compare_eq_gt_iff_of_legible (legible other (perm.mem_iff.mp otherFirst.mem))
    (legible best first.mem)
  cases outcome : best.compare other with
  | eq => rfl
  | gt => exact absurd outcome bestBelow
  | lt => exact absurd (swapped.mpr outcome) otherBelow

/-- Whatever the order of the versions, their highest ones rank the same. -/
theorem rel_highest?_of_perm {versions others : List Version}
    (legible : ∀ v ∈ versions, v.Legible) (perm : others.Perm versions) :
    Option.Rel (fun a b : Version => a.compare b = .eq) (highest? versions) (highest? others) := by
  cases top : highest? versions with
  | none =>
      rw [highest?_eq_none_iff] at top
      rw [top, List.perm_nil] at perm
      rw [perm]
      exact .none
  | some best =>
      have otherLegible (v : Version) (member : v ∈ others) : v.Legible :=
        legible v (perm.mem_iff.mp member)
      cases otherTop : highest? others with
      | none =>
          rw [highest?_eq_none_iff] at otherTop
          rw [otherTop, List.nil_perm] at perm
          rw [perm] at top
          cases top
      | some other =>
          exact .some ((firstHighest_of_highest? legible top).compare_eq legible perm
            (firstHighest_of_highest? otherLegible otherTop))

end Version

end VersionRange
