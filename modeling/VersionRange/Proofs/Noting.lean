import VersionRange.Proofs.Fallible
import VersionRange.Range

/-!
# Computations aside from their journal

What a computation that keeps a journal comes to does not depend on what was noted before,
and is put together from what its steps come to.  So such a computation can be followed as
one that only may fail.  Where the journal counts, its records are put together in the same
way: each step adds its own behind those of the steps before.
-/

namespace VersionRange

open Fallible

namespace Noting

variable {α β : Type}

/-- The computation comes to the outcome, whatever was noted before. -/
def ComesTo (computation : Noting α) (outcome : Except Fault α) : Prop :=
  ∀ journal, (computation.run.run journal).1 = outcome

theorem ComesTo.collect {computation : Noting α} {outcome : Except Fault α}
    (comes : computation.ComesTo outcome) : (collect computation).1 = outcome :=
  comes []

theorem comesTo_pure (value : α) : (pure value : Noting α).ComesTo (.ok value) :=
  fun _ => rfl

theorem comesTo_lift (outcome : Except Fault α) : (lift outcome).ComesTo outcome := by
  intro journal
  cases outcome <;> rfl

theorem comesTo_note (record : JournalRecord) : (note record).ComesTo (.ok ()) :=
  fun _ => rfl

theorem ComesTo.bind {computation : Noting α} {outcome : Except Fault α}
    {next : α → Noting β} {nextOutcome : α → Except Fault β} (comes : computation.ComesTo outcome)
    (each : ∀ value, (next value).ComesTo (nextOutcome value)) :
    (computation >>= next).ComesTo (outcome >>= nextOutcome) := by
  intro journal
  have first := comes journal
  rw [ExceptT.run_bind, StateT.run_bind]
  generalize computation.run.run journal = reached at first
  obtain ⟨result, noted⟩ := reached
  change result = outcome at first
  subst first
  cases result with
  | error fault => rfl
  | ok value => exact each value noted

theorem ComesTo.adapt {computation : Noting α} {outcome : Except Fault α}
    (comes : computation.ComesTo outcome) (change : Fault → Fault) :
    ComesTo (ExceptT.adapt change computation) (outcome.mapError change) := by
  intro journal
  rw [← comes journal]
  rfl

theorem comesTo_mapM {step : α → Noting β} {outcome : α → Except Fault β}
    (each : ∀ item, (step item).ComesTo (outcome item)) (items : List α) :
    (items.mapM step).ComesTo (items.mapM outcome) := by
  induction items with
  | nil => exact comesTo_pure []
  | cons item rest ih =>
      rw [List.mapM_cons, List.mapM_cons]
      apply (each item).bind
      intro result
      apply ih.bind
      intro results
      exact comesTo_pure (result :: results)

theorem mapM_congr {step step' : α → Noting β} {items : List α}
    (agrees : ∀ item ∈ items, step item = step' item) : items.mapM step = items.mapM step' := by
  induction items with
  | nil => rfl
  | cons item rest ih =>
      obtain ⟨first, others⟩ := List.forall_mem_cons.mp agrees
      rw [List.mapM_cons, List.mapM_cons, first, ih others]

/-- The computation comes to the outcome and adds the records to the journal, whatever was
noted before. -/
def Notes (computation : Noting α) (outcome : Except Fault α) (noted : Journal) : Prop :=
  ∀ journal, computation.run.run journal = (outcome, journal ++ noted)

theorem Notes.collect {computation : Noting α} {outcome : Except Fault α} {noted : Journal}
    (notes : computation.Notes outcome noted) : collect computation = (outcome, noted) :=
  notes []

theorem Notes.comesTo {computation : Noting α} {outcome : Except Fault α} {noted : Journal}
    (notes : computation.Notes outcome noted) : computation.ComesTo outcome :=
  fun journal => congrArg Prod.fst (notes journal)

theorem notes_pure (value : α) : (pure value : Noting α).Notes (.ok value) [] := by
  intro journal
  rw [List.append_nil]
  rfl

theorem notes_lift (outcome : Except Fault α) : (lift outcome).Notes outcome [] := by
  intro journal
  rw [List.append_nil]
  cases outcome <;> rfl

theorem notes_note (record : JournalRecord) : (note record).Notes (.ok ()) [record] :=
  fun _ => rfl

theorem Notes.bind_ok {computation : Noting α} {value : α} {first second : Journal}
    {next : α → Noting β} {outcome : Except Fault β}
    (notes : computation.Notes (.ok value) first) (others : (next value).Notes outcome second) :
    (computation >>= next).Notes outcome (first ++ second) := by
  intro journal
  rw [ExceptT.run_bind, StateT.run_bind, notes journal, ← List.append_assoc]
  exact others (journal ++ first)

theorem Notes.bind_error {computation : Noting α} {fault : Fault} {noted : Journal}
    (notes : computation.Notes (.error fault) noted) (next : α → Noting β) :
    (computation >>= next).Notes (.error fault) noted := by
  intro journal
  rw [ExceptT.run_bind, StateT.run_bind, notes journal]
  rfl

/-- A traversal that succeeds notes what its steps note, one after the other. -/
theorem notes_mapM {step : α → Noting β} {outcome : α → Except Fault β} {noted : α → Journal}
    (each : ∀ item, (step item).Notes (outcome item) (noted item)) {items : List α}
    {results : List β} (succeeds : items.mapM outcome = .ok results) :
    (items.mapM step).Notes (.ok results) (items.flatMap noted) := by
  induction items generalizing results with
  | nil =>
      cases succeeds
      exact notes_pure []
  | cons item rest ih =>
      rw [List.mapM_cons] at succeeds
      obtain ⟨result, head, tail⟩ := bind_eq_ok_iff.mp succeeds
      obtain ⟨others, behind, whole⟩ := bind_eq_ok_iff.mp tail
      cases whole
      have first := each item
      rw [head] at first
      rw [List.mapM_cons, List.flatMap_cons]
      apply first.bind_ok
      rw [← List.append_nil (rest.flatMap noted)]
      exact (ih behind).bind_ok (notes_pure (result :: others))

end Noting

namespace Range

theorem comesTo_parseNoting (options : ParseOptions) (text : String) :
    (parseNoting options text).ComesTo (parse options text) := by
  have apart : parse options text =
      parseRecorded options text >>= fun found => .ok found.1 := by
    rw [parse]
    cases parseRecorded options text <;> rfl
  rw [apart, parseNoting]
  apply (Noting.comesTo_lift _).bind
  rintro ⟨range, record⟩
  cases record with
  | none => exact Noting.comesTo_pure range
  | some record => exact (Noting.comesTo_note record).bind fun _ => Noting.comesTo_pure range

end Range

end VersionRange
