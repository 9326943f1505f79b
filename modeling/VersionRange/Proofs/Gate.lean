import VersionRange.Range

/-!
# The gate of a group

Each comparator of a group decides for itself whether a prerelease may pass, from
its own options, its own target and the targets next to it.  All these decisions
together amount to one gate for the whole group, which depends only on which
comparators stand in the group.  Neither order nor repetition matters, of groups
and of comparators within them.
-/

namespace VersionRange

namespace Range

/-- Every target of the group stands to the candidate as its operator asks. -/
def AllAccept (group : List Comparator) (candidate : Version) : Prop :=
  ∀ op target options, .exact op target options ∈ group →
    op.test (candidate.compare target) = true

/-- The candidate is a release, or the group has a prerelease target with the same
three numbers, or every comparator of the group includes prereleases. -/
def GateOpen (group : List Comparator) (candidate : Version) : Prop :=
  candidate.isPrerelease = false ∨
    (∃ op target options, .exact op target options ∈ group ∧ target.isPrerelease = true ∧
      target.main = candidate.main) ∨
    ∀ c ∈ group, c.options.includePrerelease = true

theorem unlocks_iff {c : Comparator} {candidate : Version} :
    c.unlocks candidate = true ↔
      ∃ op target options, c = .exact op target options ∧ target.isPrerelease = true ∧
        target.main = candidate.main := by
  cases c with
  | any options => simp [Comparator.unlocks]
  | exact op target options =>
      simp only [Comparator.unlocks, Bool.and_eq_true, beq_iff_eq]
      constructor
      · intro unlocks
        exact ⟨op, target, options, rfl, unlocks⟩
      · rintro ⟨_, _, _, same, unlocks⟩
        cases same
        exact unlocks

theorem any_unlocks_iff {group : List Comparator} {candidate : Version} :
    (group.any fun c => c.unlocks candidate) = true ↔
      ∃ op target options, .exact op target options ∈ group ∧ target.isPrerelease = true ∧
        target.main = candidate.main := by
  simp only [List.any_eq_true, unlocks_iff]
  constructor
  · rintro ⟨_, member, op, target, options, rfl, unlocks⟩
    exact ⟨op, target, options, member, unlocks⟩
  · rintro ⟨op, target, options, member, unlocks⟩
    exact ⟨_, member, op, target, options, rfl, unlocks⟩

theorem forall_accepts_iff {group : List Comparator} {candidate : Version} :
    (∀ c ∈ group, c.accepts candidate = true) ↔ AllAccept group candidate := by
  constructor
  · intro accepts op target options member
    exact accepts _ member
  · intro accepts c member
    cases c with
    | any options => rfl
    | exact op target options => exact accepts op target options member

/-- The gates of all comparators are open exactly when the gate of the group is. -/
theorem forall_passesGate_iff {group : List Comparator} {candidate : Version} :
    (∀ c ∈ group, c.passesGate candidate group = true) ↔ GateOpen group candidate := by
  rw [GateOpen, ← any_unlocks_iff]
  constructor
  · intro passes
    by_cases release : candidate.isPrerelease = false
    · exact .inl release
    by_cases unlocked : (group.any fun c => c.unlocks candidate) = true
    · exact .inr (.inl unlocked)
    refine .inr (.inr fun c member => ?_)
    -- Nothing in the group unlocks the candidate, so the comparator itself does not.
    have locked : c.unlocks candidate = false := by
      have none : ∀ other ∈ group, other.unlocks candidate = false := by simpa using unlocked
      exact none c member
    simpa [Comparator.passesGate, release, unlocked, locked] using passes c member
  · rintro (release | unlocked | included) c member
    · simp [Comparator.passesGate, release]
    · simp [Comparator.passesGate, unlocked]
    · simp [Comparator.passesGate, included c member]

theorem groupIncludes_iff {group : List Comparator} {candidate : Version} :
    groupIncludes group candidate = true ↔
      AllAccept group candidate ∧ GateOpen group candidate := by
  rw [← forall_accepts_iff, ← forall_passesGate_iff, groupIncludes, List.all_eq_true]
  simp only [Comparator.includes, Bool.and_eq_true]
  constructor
  · intro includes
    exact ⟨fun c member => (includes c member).2, fun c member => (includes c member).1⟩
  · rintro ⟨accepts, passes⟩ c member
    exact ⟨passes c member, accepts c member⟩

/-- Behind an open gate only the targets matter. -/
theorem groupIncludes_iff_of_gateOpen {group : List Comparator} {candidate : Version}
    (passes : GateOpen group candidate) :
    groupIncludes group candidate = true ↔ ∀ c ∈ group, c.accepts candidate = true := by
  rw [groupIncludes_iff, forall_accepts_iff]
  exact and_iff_left passes

/-- With prereleases included the gate is open for all versions. -/
theorem groupIncludes_iff_of_included {group : List Comparator} {candidate : Version}
    (included : ∀ c ∈ group, c.options.includePrerelease = true) :
    groupIncludes group candidate = true ↔ ∀ c ∈ group, c.accepts candidate = true :=
  groupIncludes_iff_of_gateOpen (.inr (.inr included))

theorem includes_iff {range : Range} {candidate : Version} :
    range.includes candidate = true ↔
      ∃ group ∈ range.groups, AllAccept group candidate ∧ GateOpen group candidate := by
  simp only [includes, List.any_eq_true, groupIncludes_iff]

theorem includes_of_single {range : Range} {group : List Comparator}
    (single : range.groups = [group]) (candidate : Version) :
    range.includes candidate = groupIncludes group candidate := by
  simp [includes, single]

/-- Changes of order and repetitions, of whole groups and within one group. -/
inductive Rearranged : List (List Comparator) → List (List Comparator) → Prop
  | groups {first second} : first.Perm second → Rearranged first second
  | repeatedGroup {group groups} : group ∈ groups → Rearranged groups (group :: groups)
  | within {before group other after} : group.Perm other →
      Rearranged (before ++ group :: after) (before ++ other :: after)
  | repeatedWithin {before group after c} : c ∈ group →
      Rearranged (before ++ group :: after) (before ++ (c :: group) :: after)
  | symm {first second} : Rearranged first second → Rearranged second first
  | trans {first second third} :
      Rearranged first second → Rearranged second third → Rearranged first third

/-- Every group of the one list has a group with the same comparators in the other. -/
def Covers (first second : List (List Comparator)) : Prop :=
  ∀ group ∈ first, ∃ other ∈ second, ∀ c, c ∈ group ↔ c ∈ other

theorem covers_of_subset {first second : List (List Comparator)} (subset : first ⊆ second) :
    Covers first second :=
  fun group member => ⟨group, subset member, fun _ => Iff.rfl⟩

theorem covers_replace {before after : List (List Comparator)} {group other : List Comparator}
    (same : ∀ c, c ∈ group ↔ c ∈ other) :
    Covers (before ++ group :: after) (before ++ other :: after) := by
  intro any member
  rcases List.mem_append.mp member with front | back
  · exact ⟨any, by simp [front], fun _ => Iff.rfl⟩
  · rcases List.mem_cons.mp back with rfl | behind
    · exact ⟨other, by simp, same⟩
    · exact ⟨any, by simp [behind], fun _ => Iff.rfl⟩

theorem covers_trans {first second third : List (List Comparator)} (left : Covers first second)
    (right : Covers second third) : Covers first third := by
  intro group member
  obtain ⟨other, otherMember, same⟩ := left group member
  obtain ⟨last, lastMember, alike⟩ := right other otherMember
  exact ⟨last, lastMember, fun c => (same c).trans (alike c)⟩

theorem covers_of_rearranged {first second : List (List Comparator)}
    (rearranged : Rearranged first second) : Covers first second ∧ Covers second first := by
  induction rearranged with
  | groups perm => exact ⟨covers_of_subset perm.subset, covers_of_subset perm.symm.subset⟩
  | repeatedGroup member =>
      refine ⟨covers_of_subset (List.subset_cons_self _ _), covers_of_subset ?_⟩
      exact List.cons_subset.mpr ⟨member, List.Subset.refl _⟩
  | within perm =>
      exact ⟨covers_replace fun _ => perm.mem_iff, covers_replace fun _ => perm.mem_iff.symm⟩
  | @repeatedWithin before group after c member =>
      have same : ∀ d, d ∈ group ↔ d ∈ c :: group := by
        intro d
        rw [List.mem_cons]
        exact ⟨.inr, fun among => among.elim (fun same => same ▸ member) id⟩
      exact ⟨covers_replace same, covers_replace fun d => (same d).symm⟩
  | symm _ ih => exact ih.symm
  | trans _ _ first second =>
      exact ⟨covers_trans first.1 second.1, covers_trans second.2 first.2⟩

theorem groupIncludes_congr {group other : List Comparator} {candidate : Version}
    (same : ∀ c, c ∈ group ↔ c ∈ other) :
    groupIncludes group candidate = groupIncludes other candidate := by
  rw [Bool.eq_iff_iff, groupIncludes_iff, groupIncludes_iff]
  simp only [AllAccept, GateOpen, same]

theorem includes_mono_of_covers {first second : Range} {candidate : Version}
    (covers : Covers first.groups second.groups) (included : first.includes candidate = true) :
    second.includes candidate = true := by
  obtain ⟨group, member, admits⟩ := List.any_eq_true.mp included
  obtain ⟨other, otherMember, same⟩ := covers group member
  exact List.any_eq_true.mpr ⟨other, otherMember, by rwa [← groupIncludes_congr same]⟩

/-- A range includes a version when, for one of its groups, all targets accept it and
the gate of the group is open.  Rearranging the range changes nothing. -/
theorem includes_through_group_gate (range : Range) (candidate : Version) :
    (range.includes candidate = true ↔
      ∃ group ∈ range.groups, AllAccept group candidate ∧ GateOpen group candidate) ∧
      ∀ other : Range, Rearranged range.groups other.groups →
        other.includes candidate = range.includes candidate := by
  refine ⟨includes_iff, fun other rearranged => ?_⟩
  obtain ⟨forth, back⟩ := covers_of_rearranged rearranged
  rw [Bool.eq_iff_iff]
  exact ⟨includes_mono_of_covers back, includes_mono_of_covers forth⟩

/-- `*` with prereleases and `>=1.0.0-a` without them, in both orders, at `1.0.0-b`. -/
theorem includes_through_group_gate_of_mixed_options :
    let star := Comparator.any ⟨true⟩
    let bound := Comparator.exact .greaterEqual ⟨1, 0, 0, [.word "a"], []⟩ ⟨false⟩
    let candidate : Version := ⟨1, 0, 0, [.word "b"], []⟩
    GateOpen [star, bound] candidate ∧ Rearranged [[star, bound]] [[bound, star]] ∧
      (Range.mk [[bound, star]]).includes candidate =
        (Range.mk [[star, bound]]).includes candidate := by
  intro star bound candidate
  have unlocked : GateOpen [star, bound] candidate :=
    .inr (.inl ⟨.greaterEqual, ⟨1, 0, 0, [.word "a"], []⟩, ⟨false⟩, by simp [bound], rfl, rfl⟩)
  have swapped : [star, bound].Perm [bound, star] := .swap bound star []
  have rearranged : Rearranged ([] ++ [star, bound] :: []) ([] ++ [bound, star] :: []) :=
    .within swapped
  exact ⟨unlocked, rearranged,
    (includes_through_group_gate ⟨[[star, bound]]⟩ candidate).2 _ rearranged⟩

end Range

end VersionRange
