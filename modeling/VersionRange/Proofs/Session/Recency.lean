import Mathlib.Data.Finset.Card
import VersionRange.Proofs.Distinct
import VersionRange.RangeCache

/-!
# Recency

Of the uses of some keys, the latest first, only the latest of each key counts.  The first
`n` of those are the ones that fewer than `n` other keys were used after.
-/

namespace VersionRange

variable {α β : Type} [DecidableEq α]

/-- The key is used, and fewer than `capacity` other keys are used after its latest use.  The
latest use stands first. -/
def Recent (capacity : Nat) (key : α) (keys : List α) : Prop :=
  key ∈ keys ∧ (keys.takeWhile (· ≠ key)).toFinset.card < capacity

instance (capacity : Nat) (key : α) (keys : List α) : Decidable (Recent capacity key keys) :=
  inferInstanceAs (Decidable (_ ∧ _))

/-- The different keys, each where it stands first. -/
def latestKeys (keys : List α) : List α :=
  distinctBy (fun a b => decide (a = b)) keys

/-- The latest use of each key. -/
def latestUses (uses : List (α × β)) : List (α × β) :=
  distinctBy (fun a b => decide (a.1 = b.1)) uses

section Keys

variable {key : α} {keys : List α} {n : Nat}

theorem latestKeys_cons (first : α) (rest : List α) :
    latestKeys (first :: rest) = first :: (latestKeys rest).filter (· ≠ first) := by
  simp [latestKeys, distinctBy, eq_comm]

theorem nodup_latestKeys (keys : List α) : (latestKeys keys).Nodup :=
  (pairwise_distinctBy keys).imp fun apart => of_decide_eq_false apart

theorem mem_latestKeys : key ∈ latestKeys keys ↔ key ∈ keys := by
  induction keys with
  | nil => rfl
  | cons first rest ih =>
      by_cases same : key = first
      · simp [latestKeys_cons, same]
      · simp [latestKeys_cons, same, ih]

theorem length_latestKeys (keys : List α) : (latestKeys keys).length = keys.toFinset.card := by
  rw [← List.toFinset_card_of_nodup (nodup_latestKeys keys)]
  congr 1
  ext key
  simp only [List.mem_toFinset, mem_latestKeys]

theorem mem_take_iff_takeWhile :
    key ∈ keys.take n ↔ key ∈ keys ∧ (keys.takeWhile (· ≠ key)).length < n := by
  induction keys generalizing n with
  | nil => simp
  | cons first rest ih =>
      cases n with
      | zero => simp
      | succ n =>
          by_cases same : first = key
          · simp [same]
          · simp [same, ih, Ne.symm same]

theorem takeWhile_filter_ne {other : α} (apart : other ≠ key) :
    (keys.filter (· ≠ other)).takeWhile (· ≠ key) =
      (keys.takeWhile (· ≠ key)).filter (· ≠ other) := by
  induction keys with
  | nil => rfl
  | cons first rest ih =>
      by_cases dropped : first = other
      · simp_all
      · by_cases same : first = key
        · simp_all
        · simp_all

theorem takeWhile_latestKeys :
    (latestKeys keys).takeWhile (· ≠ key) = latestKeys (keys.takeWhile (· ≠ key)) := by
  induction keys with
  | nil => rfl
  | cons first rest ih =>
      rw [latestKeys_cons]
      by_cases same : first = key
      · simp [same, latestKeys, distinctBy]
      · have passes (others : List α) :
            (first :: others).takeWhile (· ≠ key) = first :: others.takeWhile (· ≠ key) :=
          List.takeWhile_cons_of_pos (decide_eq_true same)
        rw [passes, passes, takeWhile_filter_ne same, ih, latestKeys_cons]

/-- Among the first `n` different keys are those that fewer than `n` others stand in front of. -/
theorem mem_take_latestKeys_iff : key ∈ (latestKeys keys).take n ↔ Recent n key keys := by
  rw [mem_take_iff_takeWhile, takeWhile_latestKeys, length_latestKeys, mem_latestKeys, Recent]

end Keys

section Uses

variable {uses : List (α × β)} {key : α} {value : β} {n : Nat}

theorem latestUses_cons :
    latestUses ((key, value) :: uses) =
      (key, value) :: (latestUses uses).filter fun use => use.1 ≠ key := by
  simp [latestUses, distinctBy, eq_comm]

theorem map_fst_latestUses : (latestUses uses).map Prod.fst = latestKeys (uses.map Prod.fst) := by
  symm
  apply distinctBy_map
  exact fun _ _ _ _ => rfl

theorem nodup_latestUses (uses : List (α × β)) : ((latestUses uses).map Prod.fst).Nodup := by
  rw [map_fst_latestUses]
  exact nodup_latestKeys (uses.map Prod.fst)

theorem mem_of_mem_latestUses {use : α × β} (member : use ∈ latestUses uses) : use ∈ uses :=
  (distinctBy_sublist uses).subset member

theorem mem_take_latestUses_iff :
    key ∈ ((latestUses uses).take n).map Prod.fst ↔ Recent n key (uses.map Prod.fst) := by
  rw [List.map_take, map_fst_latestUses, mem_take_latestKeys_iff]

theorem filter_ne_cons_of_eq {use : α × β} (same : use.1 = key) :
    ((use :: uses).filter fun use => use.1 ≠ key) = uses.filter fun use => use.1 ≠ key :=
  List.filter_cons_of_neg (by simp [same])

theorem filter_ne_cons_of_ne {use : α × β} (other : use.1 ≠ key) :
    ((use :: uses).filter fun use => use.1 ≠ key) = use :: uses.filter fun use => use.1 ≠ key :=
  List.filter_cons_of_pos (by simp [other])

theorem filter_eq_self_of_notMem (absent : key ∉ uses.map Prod.fst) :
    (uses.filter fun use => use.1 ≠ key) = uses := by
  refine List.filter_eq_self.mpr fun use member => ?_
  have other : use.1 ≠ key := fun same => absent (same ▸ List.mem_map_of_mem member)
  simpa using other

/-- Taking the one use of a key out of the first `n + 1` uses leaves the first `n` others. -/
theorem filter_take_of_mem (apart : (uses.map Prod.fst).Nodup)
    (member : key ∈ (uses.take (n + 1)).map Prod.fst) :
    ((uses.take (n + 1)).filter fun use => use.1 ≠ key) =
      (uses.filter fun use => use.1 ≠ key).take n := by
  induction uses generalizing n with
  | nil => simp at member
  | cons first rest ih =>
      rw [List.map_cons, List.nodup_cons] at apart
      obtain ⟨alone, others⟩ := apart
      by_cases same : first.1 = key
      · -- The key is not used again, so that nothing else is taken out.
        rw [same] at alone
        have absent : key ∉ (rest.take n).map Prod.fst := fun inside =>
          alone ((List.take_sublist n rest).map Prod.fst |>.subset inside)
        rw [List.take_succ_cons, filter_ne_cons_of_eq same, filter_ne_cons_of_eq same,
          filter_eq_self_of_notMem absent, filter_eq_self_of_notMem alone]
      · cases n with
        | zero => simp [Ne.symm same] at member
        | succ n =>
            have later : key ∈ (rest.take (n + 1)).map Prod.fst := by
              simpa [Ne.symm same] using member
            rw [List.take_succ_cons, filter_ne_cons_of_ne same, filter_ne_cons_of_ne same,
              List.take_succ_cons, ih others later]

theorem take_filter_of_notMem (absent : key ∉ (uses.take n).map Prod.fst) :
    (uses.filter fun use => use.1 ≠ key).take n = uses.take n := by
  induction uses generalizing n with
  | nil => rfl
  | cons first rest ih =>
      cases n with
      | zero => rfl
      | succ n =>
          rw [List.take_succ_cons, List.map_cons, List.mem_cons, not_or] at absent
          rw [filter_ne_cons_of_ne (Ne.symm absent.1), List.take_succ_cons, List.take_succ_cons,
            ih absent.2]

/-- Using a key that is among the first `n` moves it to the front. -/
theorem take_latestUses_of_mem (member : key ∈ ((latestUses uses).take n).map Prod.fst) :
    (key, value) :: ((latestUses uses).take n).filter (fun use => use.1 ≠ key) =
      (latestUses ((key, value) :: uses)).take n := by
  cases n with
  | zero => simp at member
  | succ n =>
      rw [latestUses_cons, List.take_succ_cons, filter_take_of_mem (nodup_latestUses uses) member]

/-- Using a key that is not among the first `n` puts it in front and drops the last of them. -/
theorem take_latestUses_of_notMem (absent : key ∉ ((latestUses uses).take n).map Prod.fst) :
    ((key, value) :: (latestUses uses).take n).take n =
      (latestUses ((key, value) :: uses)).take n := by
  cases n with
  | zero => rfl
  | succ n =>
      have fewer : key ∉ ((latestUses uses).take n).map Prod.fst := fun inside =>
        absent ((List.take_sublist_take_left n.le_succ).map Prod.fst |>.subset inside)
      rw [latestUses_cons, List.take_succ_cons, List.take_succ_cons, take_filter_of_notMem fewer,
        List.take_take, Nat.min_eq_left n.le_succ]

end Uses

end VersionRange
