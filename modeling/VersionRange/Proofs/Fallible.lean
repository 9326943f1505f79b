import Mathlib.Data.List.Forall2

/-!
# Computations that may fail

A computation of several steps succeeds exactly when all of its steps do, and
fails with the fault of the first step that fails.  A traversal of a list is such
a computation with one step for each element.
-/

namespace VersionRange

namespace Fallible

variable {ε ε' α β : Type}

theorem bind_eq_ok_iff {first : Except ε α} {next : α → Except ε β} {b : β} :
    (first >>= next) = .ok b ↔ ∃ a, first = .ok a ∧ next a = .ok b := by
  cases first <;> simp [bind, Except.bind]

theorem bind_eq_error_iff {first : Except ε α} {next : α → Except ε β} {fault : ε} :
    (first >>= next) = .error fault ↔
      first = .error fault ∨ ∃ a, first = .ok a ∧ next a = .error fault := by
  cases first <;> simp [bind, Except.bind]

@[simp]
theorem ok_bind (a : α) (next : α → Except ε β) : (Except.ok a >>= next) = next a :=
  rfl

@[simp]
theorem error_bind (fault : ε) (next : α → Except ε β) :
    (Except.error fault >>= next) = .error fault :=
  rfl

@[simp]
theorem pure_eq_ok (a : α) : (pure a : Except ε α) = .ok a :=
  rfl

theorem map_eq_ok_iff {outcome : Except ε α} {f : α → β} {b : β} :
    outcome.map f = .ok b ↔ ∃ a, outcome = .ok a ∧ f a = b := by
  cases outcome <;> simp [Except.map]

theorem map_eq_error_iff {outcome : Except ε α} {f : α → β} {fault : ε} :
    outcome.map f = .error fault ↔ outcome = .error fault := by
  cases outcome <;> simp [Except.map]

theorem mapError_eq_ok_iff {outcome : Except ε α} {f : ε → ε'} {a : α} :
    outcome.mapError f = .ok a ↔ outcome = .ok a := by
  cases outcome <;> simp [Except.mapError]

theorem mapError_eq_error_iff {outcome : Except ε α} {f : ε → ε'} {fault : ε'} :
    outcome.mapError f = .error fault ↔ ∃ cause, outcome = .error cause ∧ f cause = fault := by
  cases outcome <;> simp [Except.mapError]

/-- A traversal succeeds when each step does, with the results in their places. -/
theorem mapM_eq_ok_iff {step : α → Except ε β} {items : List α} {results : List β} :
    items.mapM step = .ok results ↔
      List.Forall₂ (fun item result => step item = .ok result) items results := by
  induction items generalizing results with
  | nil => cases results <;> simp
  | cons item rest ih =>
      rw [List.mapM_cons, bind_eq_ok_iff]
      simp only [bind_eq_ok_iff, ih, pure_eq_ok, Except.ok.injEq, List.forall₂_cons_left_iff]
      constructor
      · rintro ⟨result, head, others, tail, rfl⟩
        exact ⟨result, others, head, tail, rfl⟩
      · rintro ⟨result, others, head, tail, rfl⟩
        exact ⟨result, head, others, tail, rfl⟩

theorem flatten_mapM_cons (step : α → Except ε (List β)) (item : α) (rest : List α) :
    ((item :: rest).mapM step).map List.flatten =
      step item >>= fun first =>
        (rest.mapM step).map List.flatten >>= fun others => .ok (first ++ others) := by
  rw [List.mapM_cons]
  cases step item with
  | error fault => rfl
  | ok first => cases rest.mapM step <;> rfl

theorem exists_item_of_mapM {step : α → Except ε β} {items : List α} {results : List β}
    (succeeds : items.mapM step = .ok results) {result : β} (member : result ∈ results) :
    ∃ item ∈ items, step item = .ok result := by
  have each := mapM_eq_ok_iff.mp succeeds
  induction each with
  | nil => cases member
  | cons head tail ih =>
      rcases List.mem_cons.mp member with rfl | later
      · exact ⟨_, by simp, head⟩
      · obtain ⟨item, among, outcome⟩ := ih (mapM_eq_ok_iff.mpr tail) later
        exact ⟨item, by simp [among], outcome⟩

theorem mem_of_mapM {step : α → Except ε β} {items : List α} {results : List β}
    (succeeds : items.mapM step = .ok results) {item : α} (member : item ∈ items) {result : β}
    (outcome : step item = .ok result) : result ∈ results := by
  have each := mapM_eq_ok_iff.mp succeeds
  induction each with
  | nil => cases member
  | cons head tail ih =>
      rcases List.mem_cons.mp member with rfl | later
      · rw [outcome] at head
        cases head
        exact List.mem_cons_self
      · exact List.mem_cons_of_mem _ (ih (mapM_eq_ok_iff.mpr tail) later)

/-- A traversal, cut at one of its items. -/
theorem mapM_append_cons_eq_ok_iff {step : α → Except ε β} {before after : List α} {item : α}
    {results : List β} :
    (before ++ item :: after).mapM step = .ok results ↔
      ∃ first result last, before.mapM step = .ok first ∧ step item = .ok result ∧
        after.mapM step = .ok last ∧ first ++ result :: last = results := by
  simp only [List.mapM_append, List.mapM_cons, bind_eq_ok_iff, pure_eq_ok, Except.ok.injEq]
  constructor
  · rintro ⟨first, front, _, ⟨result, one, last, back, rfl⟩, rfl⟩
    exact ⟨first, result, last, front, one, back, rfl⟩
  · rintro ⟨first, result, last, front, one, back, rfl⟩
    exact ⟨first, front, _, ⟨result, one, last, back, rfl⟩, rfl⟩

/-- If each step has the result of another step up to `f`, then so has the traversal. -/
theorem mapM_eq_map_mapM {γ : Type} {step : α → Except ε β} {step' : α → Except ε γ} {f : β → γ}
    {items : List α} (agrees : ∀ item ∈ items, step' item = (step item).map f) :
    items.mapM step' = (items.mapM step).map (List.map f) := by
  induction items with
  | nil => rfl
  | cons item rest ih =>
      obtain ⟨first, others⟩ := List.forall_mem_cons.mp agrees
      rw [List.mapM_cons, List.mapM_cons, first, ih others]
      cases step item with
      | error fault => rfl
      | ok result => cases rest.mapM step <;> rfl

/-- If each step reads what `write` writes, then so does the traversal. -/
theorem mapM_eq_ok_iff_of_reads {step : α → Except ε β} {write : β → α} {good : β → Prop}
    {items : List α} {results : List β}
    (reads : ∀ item ∈ items, ∀ result, step item = .ok result ↔ good result ∧ write result = item) :
    items.mapM step = .ok results ↔
      (∀ result ∈ results, good result) ∧ results.map write = items := by
  rw [mapM_eq_ok_iff]
  induction items generalizing results with
  | nil => cases results <;> simp
  | cons item rest ih =>
      obtain ⟨first, others⟩ := List.forall_mem_cons.mp reads
      cases results with
      | nil => simp
      | cons result results =>
          rw [List.forall₂_cons, first, ih others, List.forall_mem_cons, List.map_cons,
            List.cons.injEq]
          tauto

/-- Some element has the property `p`, and all elements before it have `q`. -/
def Preceded (p q : α → Prop) (list : List α) : Prop :=
  ∃ before a after, list = before ++ a :: after ∧ p a ∧ ∀ earlier ∈ before, q earlier

section Preceded

variable {p q : α → Prop}

@[simp]
theorem not_preceded_nil : ¬Preceded p q [] := by
  simp [Preceded]

@[simp]
theorem preceded_cons {a : α} {rest : List α} :
    Preceded p q (a :: rest) ↔ p a ∨ q a ∧ Preceded p q rest := by
  constructor
  · rintro ⟨_ | ⟨first, before⟩, b, after, split, found, earlier⟩
    · obtain ⟨rfl, rfl⟩ := List.cons.inj split
      exact .inl found
    · obtain ⟨rfl, rfl⟩ := List.cons.inj split
      obtain ⟨head, others⟩ := List.forall_mem_cons.mp earlier
      exact .inr ⟨head, before, b, after, rfl, found, others⟩
  · rintro (found | ⟨head, before, b, after, rfl, found, others⟩)
    · exact ⟨[], a, rest, rfl, found, by simp⟩
    · exact ⟨a :: before, b, after, rfl, found, List.forall_mem_cons.mpr ⟨head, others⟩⟩

theorem preceded_append {first second : List α} :
    Preceded p q (first ++ second) ↔
      Preceded p q first ∨ (∀ a ∈ first, q a) ∧ Preceded p q second := by
  induction first with
  | nil => simp
  | cons a rest ih =>
      rw [List.cons_append, preceded_cons, preceded_cons, ih, List.forall_mem_cons]
      tauto

theorem preceded_congr {r : α → β → Prop} {p' q' : β → Prop} {list : List α} {list' : List β}
    (related : List.Forall₂ r list list') (sameP : ∀ a b, r a b → (p a ↔ p' b))
    (sameQ : ∀ a b, r a b → (q a ↔ q' b)) : Preceded p q list ↔ Preceded p' q' list' := by
  induction related with
  | nil => simp
  | cons head tail ih => rw [preceded_cons, preceded_cons, sameP _ _ head, sameQ _ _ head, ih]

end Preceded

/-- A traversal fails with the fault of the first step that fails. -/
theorem mapM_eq_error_iff {step : α → Except ε β} {items : List α} {fault : ε} :
    items.mapM step = .error fault ↔
      Preceded (fun item => step item = .error fault) (fun item => ∃ result, step item = .ok result)
        items := by
  induction items with
  | nil => simp
  | cons item rest ih =>
      rw [List.mapM_cons, bind_eq_error_iff, preceded_cons, ← ih]
      simp only [bind_eq_error_iff, pure_eq_ok, reduceCtorEq, and_false, exists_false, or_false,
        exists_and_right]

/-- A traversal fails when some step does, whichever comes first. -/
theorem mapM_fails_iff {step : α → Except ε β} {items : List α} :
    (∃ fault, items.mapM step = .error fault) ↔
      ∃ item ∈ items, ∃ fault, step item = .error fault := by
  induction items with
  | nil => simp
  | cons item rest ih =>
      cases head : step item with
      | error fault => simp [List.mapM_cons, head]
      | ok result =>
          simp [List.mapM_cons, head, bind_eq_error_iff, ← ih]

theorem mapM_succeeds_iff {step : α → Except ε β} {items : List α} :
    (∃ results, items.mapM step = .ok results) ↔
      ∀ item ∈ items, ∃ result, step item = .ok result := by
  constructor
  · rintro ⟨results, succeeds⟩ item member
    cases outcome : step item with
    | ok result => exact ⟨result, rfl⟩
    | error fault =>
        obtain ⟨_, fails⟩ := mapM_fails_iff.mpr ⟨item, member, fault, outcome⟩
        rw [succeeds] at fails
        cases fails
  · intro each
    cases outcome : items.mapM step with
    | ok results => exact ⟨results, rfl⟩
    | error fault =>
        obtain ⟨item, member, _, fails⟩ := mapM_fails_iff.mp ⟨fault, outcome⟩
        obtain ⟨result, succeeds⟩ := each item member
        rw [succeeds] at fails
        cases fails

theorem exists_eq_ok_iff {outcome : Except ε Unit} :
    (∃ result, outcome = .ok result) ↔ outcome = .ok () :=
  ⟨fun ⟨_, passed⟩ => passed, fun passed => ⟨(), passed⟩⟩

/-- A loop that only checks each item is a traversal. -/
theorem forIn_eq_mapM {check : α → Except ε Unit} (items : List α) :
    (forIn items PUnit.unit fun item _ => do
      check item
      pure (ForInStep.yield PUnit.unit)) =
      (items.mapM check).map fun _ => () := by
  induction items with
  | nil => rfl
  | cons item rest ih =>
      rw [List.forIn_cons, List.mapM_cons]
      cases check item with
      | error fault => rfl
      | ok passed =>
          simp only [ih]
          cases rest.mapM check <;> rfl

theorem forIn_eq_ok_iff {check : α → Except ε Unit} {items : List α} {passed : Unit} :
    (forIn items PUnit.unit fun item _ => do
      check item
      pure (ForInStep.yield PUnit.unit)) = .ok passed ↔
      ∀ item ∈ items, check item = .ok () := by
  rw [forIn_eq_mapM, map_eq_ok_iff]
  simp only [and_true, mapM_succeeds_iff, exists_eq_ok_iff]

theorem forIn_eq_error_iff {check : α → Except ε Unit} {items : List α} {fault : ε} :
    (forIn items PUnit.unit fun item _ => do
      check item
      pure (ForInStep.yield PUnit.unit)) = .error fault ↔
      Preceded (fun item => check item = .error fault) (fun item => check item = .ok ())
        items := by
  rw [forIn_eq_mapM, map_eq_error_iff, mapM_eq_error_iff]
  simp only [exists_eq_ok_iff]

/-- Traversals of the parts of a list one after the other fail like the traversal of
what all the parts consist of. -/
theorem mapM_flatMap_eq_error_iff {γ δ : Type} {outer : α → Except ε β} {inner : α → List γ}
    {step : γ → Except ε δ}
    (agrees : ∀ a fault, outer a = .error fault ↔ (inner a).mapM step = .error fault)
    {list : List α} {fault : ε} :
    list.mapM outer = .error fault ↔ (list.flatMap inner).mapM step = .error fault := by
  induction list with
  | nil => simp
  | cons a rest ih =>
      rw [List.mapM_cons, List.flatMap_cons, List.mapM_append, bind_eq_error_iff, bind_eq_error_iff,
        agrees a fault]
      refine or_congr_right ?_
      have succeeds : (∃ b, outer a = .ok b) ↔ ∃ results, (inner a).mapM step = .ok results := by
        cases whole : outer a with
        | ok b =>
            cases parts : (inner a).mapM step with
            | ok results => simp
            | error other => simp [(agrees a other).mpr parts] at whole
        | error other => simp [(agrees a other).mp whole]
      simp only [bind_eq_error_iff, pure_eq_ok, reduceCtorEq, and_false, exists_false, or_false,
        exists_and_right, ih, succeeds]

end Fallible

end VersionRange
