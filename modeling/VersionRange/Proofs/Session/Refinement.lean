import VersionRange.Proofs.Outcome
import VersionRange.Proofs.Session.Steps

/-!
# Sessions refine reading without a cache

Whatever was asked before, every answer is the one that reading anew gives under the
settings in force.  Only a question that leaves its options to the settings depends on
the surroundings, and only until there are settings.
-/

namespace VersionRange

open Fallible

namespace Session

/-- The session after a history is settled with the settings in force. -/
theorem settled_replay {history : List Request} (fits : Fits history) :
    (replay history).Settled (inForce history) := by
  induction history using List.reverseRecOn with
  | nil => exact settled_initial
  | append_singleton earlier request ih =>
      obtain ⟨fitsEarlier, last⟩ := fits_append_singleton_iff.mp fits
      rw [replay_append_singleton, inForce_append_singleton]
      exact ((ih fitsEarlier).perform last).2

theorem versionOf_ne_settings (value : Value) (cause : SettingsFault) :
    versionOf value ≠ .error (.settings cause) := by
  intro refused
  cases value with
  | text text =>
      rcases Version.fault_of_parseChars refused with ⟨_, version⟩ | ⟨_, numeral⟩
      · cases version
      · cases numeral
  | _ => cases refused

theorem candidates_ne_settings (versions : Value) (cause : SettingsFault) :
    (versions.members >>= List.mapM versionOf) ≠ .error (.settings cause) := by
  intro refused
  rcases bind_eq_error_iff.mp refused with fails | ⟨items, -, fails⟩
  · cases versions <;> cases fails
  · obtain ⟨-, item, -, -, itemFails, -⟩ := mapM_eq_error_iff.mp fails
    exact versionOf_ne_settings item cause itemFails

theorem finish_ne_settings (question : Question) (range : Range) (cause : SettingsFault) :
    question.finish range ≠ .error (.settings cause) := by
  have after {α : Type} {outcome : Except Fault α} (safe : outcome ≠ .error (.settings cause))
      (f : α → Answer) : (do return f (← outcome)) ≠ Except.error (Fault.settings cause) := by
    cases outcome with
    | ok value => exact fun absurd => by cases absurd
    | error fault => exact fun same => safe (congrArg Except.error (Except.error.inj same))
  cases question with
  | parse text => exact fun absurd => by cases absurd
  | satisfies version source => exact after (versionOf_ne_settings version cause) _
  | filter versions source =>
      simpa only [Question.finish, bind_assoc] using
        after (candidates_ne_settings versions cause) _
  | max versions source =>
      simpa only [Question.finish, bind_assoc] using
        after (candidates_ne_settings versions cause) _

theorem cases_of_selfContained {options : Option ParseOptions} {question : Question}
    (contained : (Call.ask options question).SelfContained) :
    (∃ range, question.source = .given range) ∨
      ∃ chosen words, options = some chosen ∧ question.source = .text words := by
  cases source : question.source with
  | given range => exact .inl ⟨range, rfl⟩
  | text words =>
      obtain brought | ⟨range, given⟩ := contained
      · obtain ⟨chosen, rfl⟩ := Option.isSome_iff_exists.mp brought
        exact .inr ⟨chosen, words, rfl, rfl⟩
      · rw [source] at given
        cases given

theorem expected_ne_settings {request : Request} (contained : request.call.SelfContained)
    (inForce : Option Settings) (cause : SettingsFault) :
    request.expected inForce ≠ .error (.settings cause) := by
  obtain ⟨world, call⟩ := request
  cases call with
  | configure chosen => cases contained
  | getSettings => cases contained
  | ask options question =>
      intro refused
      rcases bind_eq_error_iff.mp refused with unread | ⟨range, -, fails⟩
      · rcases cases_of_selfContained contained with ⟨range, source⟩ | ⟨chosen, words, rfl, source⟩
        · rw [source] at unread
          cases unread
        · rw [source] at unread
          rcases Range.fault_of_parse unread with ⟨_, range⟩ | ⟨_, numeral⟩ | empty
          · cases range
          · cases numeral
          · cases empty
      · exact finish_ne_settings question range cause fails

theorem rangeOf_of_selfContained {options : Option ParseOptions} {question : Question}
    (contained : (Call.ask options question).SelfContained) (world other : World) :
    rangeOf world options question.source.toRangeSource =
      rangeOf other options question.source.toRangeSource := by
  rcases cases_of_selfContained contained with ⟨range, source⟩ | ⟨chosen, words, rfl, source⟩
  · rw [source]
    rfl
  · rw [source]
    rfl

theorem perform_of_selfContained {call : Call} (contained : call.SelfContained)
    (world other : World) (session : Session) :
    Request.perform ⟨world, call⟩ session = Request.perform ⟨other, call⟩ session := by
  cases call with
  | configure chosen => cases contained
  | getSettings => cases contained
  | ask options question =>
      simp only [Request.perform, Call.make, pose_eq]
      rw [rangeOf_of_selfContained contained world other]

theorem inForce_of_selfContained {request : Request} (contained : request.call.SelfContained)
    (history : List Request) : inForce (history ++ [request]) = inForce history := by
  have loads : request.configured? = none ∧ request.loaded? = none := by
    obtain ⟨world, call⟩ := request
    cases call with
    | configure chosen => cases contained
    | getSettings => cases contained
    | ask options question =>
        refine ⟨rfl, ?_⟩
        change question.source.loaded? world options = none
        rcases cases_of_selfContained contained with ⟨range, source⟩ | ⟨chosen, words, rfl, source⟩
        · rw [source]
          rfl
        · rw [source]
          rfl
  rw [inForce_append_singleton, loads.1, loads.2, Option.none_or, Option.or_none]

theorem perform_of_settings {session : Session} (set : session.settings ≠ none) {call : Call}
    (kept : call ≠ .configure none) (world other : World) :
    Request.perform ⟨world, call⟩ session = Request.perform ⟨other, call⟩ session := by
  obtain ⟨settings, present⟩ := Option.ne_none_iff_exists'.mp set
  have found := run_currentSettings_of_some present
  cases call with
  | configure chosen =>
      cases chosen with
      | none => exact absurd rfl kept
      | some chosen => rfl
  | getSettings =>
      simp only [Request.perform, Call.make]
      rw [run_bind_of_ok (found world), run_bind_of_ok (found other)]
  | ask options question =>
      cases source : question.source with
      | given range =>
          have contained : (Call.ask options question).SelfContained := .inr ⟨range, source⟩
          exact perform_of_selfContained contained world other _
      | text words =>
          cases options with
          | some options =>
              have contained : (Call.ask (some options) question).SelfContained := .inl rfl
              exact perform_of_selfContained contained world other _
          | none =>
              simp only [Request.perform, Call.make, pose_eq, source, rangeOf_text_eq, bind_assoc]
              rw [run_bind_of_ok (found world), run_bind_of_ok (found other)]

theorem inForce_append_ne_none {history : List Request} (set : inForce history ≠ none)
    (later : List Request) : inForce (history ++ later) ≠ none := by
  induction later using List.reverseRecOn with
  | nil => rwa [List.append_nil]
  | append_singleton later request ih =>
      obtain ⟨settings, present⟩ := Option.ne_none_iff_exists'.mp ih
      rw [← List.append_assoc, inForce_append_singleton, present]
      cases request.configured? <;> simp

/-- Once settings are in force, requests that do not ask for a reload have the same effect
in other surroundings. -/
theorem replay_append_of_settings {earlier later changed : List Request}
    (fits : Fits (earlier ++ later)) (set : inForce earlier ≠ none)
    (kept : ∀ request ∈ later, request.call ≠ .configure none)
    (same : changed.map Request.call = later.map Request.call) :
    replay (earlier ++ changed) = replay (earlier ++ later) := by
  induction later using List.reverseRecOn generalizing changed with
  | nil => rw [List.map_eq_nil_iff.mp same]
  | append_singleton later request ih =>
      rw [List.map_append, List.map_singleton] at same
      obtain ⟨front, last, rfl, frontSame, lastSame⟩ := List.map_eq_append_iff.mp same
      obtain ⟨other, rfl, call⟩ := List.map_eq_singleton_iff.mp lastSame
      rw [← List.append_assoc] at fits ⊢
      have fitsLater := (fits_append_singleton_iff.mp fits).1
      have settings := (settled_replay fitsLater).settings ▸ inForce_append_ne_none set later
      rw [← List.append_assoc, replay_append_singleton, replay_append_singleton,
        ih fitsLater (fun r member => kept r (by simp [member])) frontSame]
      obtain ⟨otherWorld, otherCall⟩ := other
      obtain rfl : otherCall = request.call := call
      exact congrArg Prod.snd
        (perform_of_settings settings (kept request (by simp)) otherWorld request.world)

/-- Every request is answered as reading without a cache does under the settings in force.
A question that brings its options or its range depends on no surroundings, and once
settings are in force nothing else does, unless a reload is asked for. -/
theorem refines_stateless {history : List Request} {request : Request}
    (fits : Fits (history ++ [request])) :
    (request.perform (replay history)).1 = request.expected (inForce history) ∧
      (request.call.SelfContained →
        (∀ world, Request.perform ⟨world, request.call⟩ (replay history) =
          request.perform (replay history)) ∧
          (request.perform (replay history)).2.settings = (replay history).settings ∧
            ∀ cause, (request.perform (replay history)).1 ≠ .error (.settings cause)) ∧
        ∀ earlier later, history = earlier ++ later → inForce earlier ≠ none →
          (∀ other ∈ later ++ [request], other.call ≠ .configure none) →
            ∀ changed world, changed.map Request.call = later.map Request.call →
              Request.perform ⟨world, request.call⟩ (replay (earlier ++ changed)) =
                request.perform (replay history) := by
  have fitsHistory := (fits_append_singleton_iff.mp fits).1
  have settled := settled_replay fitsHistory
  have answer := (settled.perform (fits_append_singleton_iff.mp fits).2).1
  refine ⟨answer, fun contained => ⟨?_, ?_, ?_⟩, ?_⟩
  · intro world
    exact perform_of_selfContained contained world request.world (replay history)
  · rw [← replay_append_singleton, (settled_replay fits).settings, settled.settings]
    exact inForce_of_selfContained contained history
  · intro cause
    rw [answer]
    exact expected_ne_settings contained (inForce history) cause
  · rintro earlier later rfl set kept changed world same
    obtain ⟨keptLater, keptLast⟩ := List.forall_mem_append.mp kept
    have settings := settled.settings ▸ inForce_append_ne_none set later
    rw [replay_append_of_settings fitsHistory set keptLater same]
    exact perform_of_settings settings (keptLast request (by simp)) world request.world

/-- Surroundings without files and variables. -/
def bare : World :=
  ⟨Files.empty, Environment.empty⟩

/-- A text is read under options that include prereleases, and settings that do not are
loaded after that. -/
def readThenLoaded : List Request :=
  [⟨bare, .ask (some ⟨true⟩) (.parse "^1.2")⟩, ⟨bare, .getSettings⟩]

/-- A question about the same text, with a variable that would include prereleases. -/
def lateVariable : Request :=
  ⟨⟨Files.empty, Environment.empty.set includePrereleaseVariable "yes"⟩,
    .ask none (.satisfies (.text "1.3.0-rc") (.text "^1.2"))⟩

theorem refines_stateless_of_lateVariable :
    Fits (readThenLoaded ++ [lateVariable]) ∧
      (lateVariable.perform (replay readThenLoaded)).1 = .ok (.verdict false) := by
  have fits : Fits (readThenLoaded ++ [lateVariable]) := by
    have loads : Fits ([] ++ [⟨bare, .ask (some ⟨true⟩) (.parse "^1.2")⟩] ++
        [⟨bare, .getSettings⟩]) := by
      refine fits_append_singleton_iff.mpr ⟨fits_append_singleton_iff.mpr ⟨fits_nil, ?_⟩, ?_⟩
      · rintro settings ⟨⟩
      · rintro settings ⟨⟩
        decide
    refine fits_append_singleton_iff.mpr ⟨loads, ?_⟩
    rintro settings ⟨⟩
  exact ⟨fits, (refines_stateless fits).1.trans rfl⟩

end Session

end VersionRange
