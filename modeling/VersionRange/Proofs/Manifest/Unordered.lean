import VersionRange.Proofs.Keys
import VersionRange.Proofs.Manifest.Places

/-!
# Violations that cannot be told

Violations are told after they are sorted, with the values that they are about and with their
places.  Sorting fails just if two dependencies of a document both have a range that is no text
and have keys without an order.  Telling fails on an integer that is too long to be written and
on a value that does not fit on the stack.
-/

namespace VersionRange

open Fallible

namespace Schema

/-- A place with the key of a dependency blanked out. -/
def blanked : List PathStep → List PathStep
  | [.key top, .key _] => [.key top, .key (.text "")]
  | place => place

theorem isPlace_blanked {place : List PathStep} (found : IsFound place) :
    IsPlace (blanked place) := by
  cases found with
  | root => exact .root
  | property name => exact .property name
  | author position => exact .author position
  | dependency key => exact .dependency ""

/-- Two dependencies. -/
def Dependencies (a b : List PathStep) (k l : Value) : Prop :=
  a = [.key (.text "dependencies"), .key k] ∧ b = [.key (.text "dependencies"), .key l]

/-- The same place, or two dependencies with keys that have an order. -/
def Meeting (a b : List PathStep) : Prop :=
  a = b ∨ ∃ k l, Dependencies a b k l ∧ k.Meets l

theorem placeLess_dependencies (k l : Value) :
    placeLess [.key (.text "dependencies"), .key k] [.key (.text "dependencies"), .key l] =
      if k.sameKey l then .ok false else (k.less l).mapError .sort := by
  rfl

/-- Unless two places are dependencies, their keys do not count. -/
theorem placeLess_blanked {a b : List PathStep} (first : IsFound a) (second : IsFound b) :
    (∃ k l, Dependencies a b k l) ∨
      (placeLess a b = placeLess (blanked a) (blanked b) ∧ (blanked a = blanked b → a = b)) := by
  cases first with
  | root => cases second <;> exact .inr ⟨rfl, by simp [blanked]⟩
  | property name => cases second <;> exact .inr ⟨rfl, by simp [blanked]⟩
  | author position => cases second <;> exact .inr ⟨rfl, by simp [blanked]⟩
  | dependency key =>
      cases second with
      | root => exact .inr ⟨rfl, by simp [blanked]⟩
      | property name => exact .inr ⟨rfl, by simp [blanked]⟩
      | author position => exact .inr ⟨rfl, by simp [blanked]⟩
      | dependency further => exact .inl ⟨key, further, rfl, rfl⟩

/-- One place comes before another, keys of dependencies aside. -/
def BlankedBefore (a b : List PathStep) : Prop :=
  PlaceBefore (blanked a) (blanked b)

theorem Meeting.blanked_eq {a b : List PathStep} (meeting : Meeting a b) :
    blanked a = blanked b := by
  rcases meeting with rfl | ⟨k, l, ⟨rfl, rfl⟩, -⟩
  · rfl
  · rfl

theorem Meeting.symm {a b : List PathStep} (meeting : Meeting a b) : Meeting b a := by
  rcases meeting with rfl | ⟨k, l, ⟨rfl, rfl⟩, meets⟩
  · exact .inl rfl
  · exact .inr ⟨l, k, ⟨rfl, rfl⟩, meets.symm⟩

theorem Meeting.trans {a b c : List PathStep} (first : Meeting a b) (second : Meeting b c) :
    Meeting a c := by
  rcases first with rfl | ⟨k, l, ⟨rfl, rfl⟩, meets⟩
  · exact second
  · rcases second with rfl | ⟨m, n, ⟨same, rfl⟩, further⟩
    · exact .inr ⟨k, l, ⟨rfl, rfl⟩, meets⟩
    · simp only [List.cons.injEq, PathStep.key.injEq, and_true, true_and] at same
      subst same
      exact .inr ⟨k, n, ⟨rfl, rfl⟩, meets.trans further⟩

theorem rankingBlanked : Ranking BlankedBefore Meeting where
  trans := PlaceBefore.trans
  before_tie before meeting := by
    rw [BlankedBefore, ← meeting.blanked_eq]
    exact before
  tie_before meeting before := by
    rw [BlankedBefore, meeting.blanked_eq]
    exact before
  tie_trans := Meeting.trans

/-- What it tells about two places that they have been compared. -/
theorem related_of_placeLess {a b : List PathStep} (first : IsFound a) (second : IsFound b)
    {below : Bool} (compared : placeLess a b = .ok below) :
    Meeting a b ∨ (if below then BlankedBefore a b else BlankedBefore b a) := by
  rcases placeLess_blanked first second with ⟨k, l, rfl, rfl⟩ | ⟨same, apart⟩
  · left
    refine .inr ⟨k, l, ⟨rfl, rfl⟩, ?_⟩
    rw [placeLess_dependencies] at compared
    split at compared
    next sameKey => exact .inl sameKey
    next => exact .inr ⟨below, mapError_eq_ok_iff.mp compared⟩
  · rw [same] at compared
    have comparable := comparable_of_isPlace (isPlace_blanked first) (isPlace_blanked second)
    cases below with
    | true => exact .inr (comparable.decides.before_of_ok compared)
    | false =>
        rcases comparable.trichotomy with before | equal | after
        · exact absurd before (comparable.decides.not_before_of_ok compared)
        · exact .inl (.inl (apart equal))
        · exact .inr after

/-- A place that cannot be compared to another is that of a dependency, as is the other. -/
theorem dependencies_of_placeLess {a b : List PathStep} (first : IsFound a) (second : IsFound b)
    {fault : Fault} (refused : placeLess a b = .error fault) :
    ∃ k l, Dependencies a b k l ∧ ¬k.Meets l := by
  rcases placeLess_blanked first second with ⟨k, l, rfl, rfl⟩ | ⟨same, -⟩
  · refine ⟨k, l, ⟨rfl, rfl⟩, ?_⟩
    rw [placeLess_dependencies] at refused
    split at refused
    next => cases refused
    next otherKey =>
      obtain ⟨cause, unordered, -⟩ := mapError_eq_error_iff.mp refused
      rintro (sameKey | ⟨below, compared⟩)
      · exact otherKey sameKey
      · rw [compared] at unordered
        cases unordered
  · have comparable := comparable_of_isPlace (isPlace_blanked first) (isPlace_blanked second)
    rw [same] at refused
    rcases comparable.decides with ⟨compared, -⟩ | ⟨compared, -⟩ <;> simp [refused] at compared

/-- A dependency with a range that is no text, at a place of its own. -/
def Misranged (dependency : Value × Value) : Prop :=
  dependency.1 ≠ .null ∧ ∀ s, dependency.2 ≠ .text s

theorem Misranged.violated {entries own : List (Value × Value)} {dependency : Value × Value}
    (misranged : Misranged dependency)
    (entry : Value.entry? "dependencies" entries = some (.object own)) (member : dependency ∈ own) :
    Violated (.object entries)
      ⟨[.key (.text "dependencies"), .key dependency.1], .wrongSort dependency.2 .text⟩ :=
  keySteps_eq misranged.1 ▸ .rangeNotText entry member misranged.2

/-- Two dependencies of the document both have a range that is no text, and their keys have no
order. -/
def Unordered (document : Value) : Prop :=
  ∃ entries own, document = .object entries ∧
    Value.entry? "dependencies" entries = some (.object own) ∧
      ∃ first ∈ own, ∃ second ∈ own, Misranged first ∧ Misranged second ∧
        ¬first.1.Meets second.1

theorem unordered_iff {document : Value} :
    Unordered document ↔
      ∃ v w k l, Violated document v ∧ Violated document w ∧ Dependencies v.path w.path k l ∧
        ¬k.Meets l := by
  constructor
  · rintro ⟨entries, own, rfl, entry, first, isFirst, second, isSecond, wrong, wrong', apart⟩
    exact ⟨_, _, _, _, wrong.violated entry isFirst, wrong'.violated entry isSecond,
      ⟨rfl, rfl⟩, apart⟩
  · rintro ⟨v, w, k, l, violated, violated', ⟨place, place'⟩, apart⟩
    obtain ⟨entries, own, value, rfl, entry, isFirst, wrong⟩ :=
      dependency_of_violated violated place
    obtain ⟨_, _, other, same, entry', isSecond, wrong'⟩ :=
      dependency_of_violated violated' place'
    cases same
    obtain rfl := Value.object.inj (Option.some.inj (entry.symm.trans entry'))
    exact ⟨entries, own, rfl, entry, _, isFirst, _, isSecond, wrong, wrong', apart⟩

theorem isKey_of_dependency {document key : Value} {v : Violation} (keyed : document.Keyed)
    (violated : Violated document v)
    (place : v.path = [.key (.text "dependencies"), .key key]) : key.isKey = true := by
  obtain ⟨entries, own, value, rfl, entry, member, -⟩ := dependency_of_violated violated place
  exact (Value.keyed_object_iff.mp (Value.keyed_of_found keyed entry) _ member).1

/-- A violation may stand in front of another. -/
def InSequence (a b : Violation) : Prop :=
  BlankedBefore a.path b.path ∨ Meeting a.path b.path

instance : Trans InSequence InSequence InSequence :=
  ⟨rankingBlanked.compose⟩

theorem inSequence_of_inOrder {a b : Violation} (first : IsFound a.path) (second : IsFound b.path)
    (compared : InOrder (fun a b : Violation => placeLess a.path b.path) a b) : InSequence a b := by
  rcases compared with compared | compared
  · exact (related_of_placeLess second first compared).elim (fun meeting => .inr meeting.symm) .inl
  · exact (related_of_placeLess first second compared).elim .inr .inl

/-- Dependencies among sorted violations have been compared, or stand between such that have. -/
theorem meets_of_sorted {document : Value} {told : List Violation} (keyed : document.Keyed)
    (inOrder : sortChecked (fun a b : Violation => placeLess a.path b.path)
      (violations document) = .ok told) {v w : Violation} {k l : Value}
    (first : Violated document v) (second : Violated document w)
    (places : Dependencies v.path w.path k l) : k.Meets l := by
  have kept := perm_of_sortChecked inOrder
  have violated {a : Violation} (member : a ∈ told) : Violated document a :=
    mem_violations_iff.mp (kept.mem_iff.mp member)
  have among {a : Violation} (found : Violated document a) : a ∈ told :=
    kept.mem_iff.mpr (mem_violations_iff.mpr found)
  have chain : told.IsChain InSequence :=
    List.IsChain.imp_of_mem_imp (fun a b isFirst isSecond compared =>
      inSequence_of_inOrder (isFound_of_violated (violated isFirst))
        (isFound_of_violated (violated isSecond)) compared) (isChain_of_sortChecked inOrder)
  have related : told.Pairwise fun a b => ∀ k l, Dependencies a.path b.path k l → k.Meets l := by
    refine (List.isChain_iff_pairwise.mp chain).imp_of_mem ?_
    rintro a b isFirst isSecond (before | meeting) k l ⟨place, place'⟩
    · -- Keys aside, dependencies share a place.
      rw [BlankedBefore, place, place'] at before
      exact absurd before (placeBefore_irrefl _)
    · rw [place, place'] at meeting
      rcases meeting with same | ⟨_, _, ⟨same, same'⟩, meets⟩
      · simp only [List.cons.injEq, PathStep.key.injEq, and_true, true_and] at same
        exact same ▸ Value.meets_self (isKey_of_dependency keyed (violated isFirst) place)
      · simp only [List.cons.injEq, PathStep.key.injEq, and_true, true_and] at same same'
        rwa [same, same']
  have symmetric : Std.Symm fun a b : Violation =>
      ∀ k l, Dependencies a.path b.path k l → k.Meets l :=
    ⟨fun a b meets k l ⟨place, place'⟩ => (meets l k ⟨place', place⟩).symm⟩
  refine related.forall_of_forall ?_ (among first) (among second) k l places
  rintro a member k l ⟨place, place'⟩
  rw [place] at place'
  simp only [List.cons.injEq, PathStep.key.injEq, and_true, true_and] at place'
  exact place' ▸ Value.meets_self (isKey_of_dependency keyed (violated member) place)

/-- The violations of a document are sorted unless two of its dependencies have no order. -/
theorem sortable_iff {document : Value} (keyed : document.Keyed) :
    (∃ told, sortChecked (fun a b : Violation => placeLess a.path b.path) (violations document) =
      .ok told) ↔ ¬Unordered document := by
  rw [unordered_iff]
  constructor
  · rintro ⟨told, inOrder⟩ ⟨v, w, k, l, first, second, places, apart⟩
    exact apart (meets_of_sorted keyed inOrder first second places)
  · intro ordered
    cases inOrder : sortChecked (fun a b : Violation => placeLess a.path b.path)
        (violations document) with
    | ok told => exact ⟨told, rfl⟩
    | error fault =>
        obtain ⟨v, isFirst, w, isSecond, refused⟩ := sortChecked_eq_error inOrder
        have first := mem_violations_iff.mp isFirst
        have second := mem_violations_iff.mp isSecond
        obtain ⟨k, l, places, apart⟩ := dependencies_of_placeLess (isFound_of_violated first)
          (isFound_of_violated second) refused
        exact absurd ⟨v, w, k, l, first, second, places, apart⟩ ordered

theorem checkStep_eq_ok_iff {step : PathStep} :
    checkStep step = .ok () ↔ ∀ key, step = .key key → key.isWritable = true := by
  cases step with
  | key value => simp [checkStep, checkWritable_eq_ok_iff]
  | index position => simp [checkStep]

theorem fault_of_checkWritable {value : Value} {fault : Fault}
    (refused : checkWritable value = .error fault) : fault = .numeral .tooLargeToWrite := by
  unfold checkWritable at refused
  split at refused
  · cases refused
  · exact (Except.error.inj refused).symm

theorem fault_of_checkStep {step : PathStep} {fault : Fault}
    (refused : checkStep step = .error fault) : fault = .numeral .tooLargeToWrite := by
  cases step with
  | key value => exact fault_of_checkWritable refused
  | index position => cases refused

theorem fault_of_placeLess {a b : List PathStep} {fault : Fault}
    (refused : placeLess a b = .error fault) : ∃ cause, fault = .sort cause := by
  fun_induction placeLess a b with
  | case1 => cases refused
  | case2 => cases refused
  | case3 a as b bs x y same ih => exact ih refused
  | case4 a as b bs x y other =>
      obtain ⟨cause, -, rfl⟩ := mapError_eq_error_iff.mp refused
      exact ⟨cause, rfl⟩

theorem fault_of_checkTellable {fits : Value → Bool} {value : Value} {fault : Fault}
    (refused : checkTellable fits value = .error fault) :
    fault = .depth .telling ∨ fault = .numeral .tooLargeToWrite := by
  unfold checkTellable at refused
  split at refused
  · exact .inr (fault_of_checkWritable refused)
  · exact .inl (Except.error.inj refused).symm

/-- Sorting fails with a fault of depth, of numerals or of sorts. -/
theorem fault_of_sorted {fits : Value → Bool} {found : List Violation} {fault : Fault}
    (refused : sortedWithin fits found = .error fault) :
    fault = .depth .telling ∨ fault = .numeral .tooLargeToWrite ∨
      ∃ cause, fault = .sort cause := by
  simp only [sortedWithin, bind_eq_error_iff, forIn_eq_error_iff] at refused
  rcases refused with value | ⟨-, -, unsorted | ⟨told, -, step | ⟨-, -, ⟨⟩⟩⟩⟩
  · obtain ⟨_, v, _, -, untold, -⟩ := value
    exact (fault_of_checkTellable untold).imp_right .inl
  · obtain ⟨v, -, w, -, unordered⟩ := sortChecked_eq_error unsorted
    exact .inr (.inr (fault_of_placeLess unordered))
  · obtain ⟨_, v, _, -, ⟨_, key, _, -, long, -⟩, -⟩ := step
    exact .inr (.inl (fault_of_checkStep long))

/-- A value can be told: it fits on the stack, and no integer in it is too long. -/
def Tellable (fits : Value → Bool) (value : Value) : Prop :=
  fits value = true ∧ value.isWritable = true

/-- The violations of a document are told unless two dependencies have no order, a value that a
violation is about cannot be told or there is an integer that is too long on the way to it. -/
theorem exists_sorted_iff {fits : Value → Bool} {document : Value} (keyed : document.Keyed) :
    (∃ told, sortedWithin fits (violations document) = .ok told) ↔
      ¬Unordered document ∧ (∀ v, Violated document v → Tellable fits v.problem.value) ∧
        ∀ v key, Violated document v → .key key ∈ v.path → key.isWritable = true := by
  rw [← sortable_iff keyed]
  simp only [sortedWithin_eq_ok_iff, checkTellable_eq_ok_iff, checkStep_eq_ok_iff,
    mem_violations_iff]
  constructor
  · rintro ⟨told, values, inOrder, steps⟩
    refine ⟨⟨told, inOrder⟩, values, fun v key violated step => ?_⟩
    have member := (perm_of_sortChecked inOrder).mem_iff.mpr (mem_violations_iff.mpr violated)
    exact steps v member _ step key rfl
  · rintro ⟨⟨told, inOrder⟩, values, keys⟩
    refine ⟨told, values, inOrder, fun v member step among key isKey => ?_⟩
    have violated := mem_violations_iff.mp ((perm_of_sortChecked inOrder).mem_iff.mp member)
    exact keys v key violated (isKey ▸ among)

end Schema

end VersionRange
