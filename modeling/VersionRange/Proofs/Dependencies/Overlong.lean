import VersionRange.Proofs.Dependencies.Checking
import VersionRange.Proofs.Version.Constructed

/-!
# Checks that fail

What cannot be read as a version counts as incompatible and is warned of.  A prerelease
number that is too long is the exception: it is no fault of versions, and so the whole check
fails with it.
-/

namespace VersionRange

open Fallible

namespace Finding

variable {m : Manifest} {installed : List (Value × Value)}

/-- An installed value that a check cannot go on from: a version text with a prerelease
number too long to be read, or a value with an integer too large to be written. -/
inductive Unusable : Value → Prop
  | overlong {text : String} (long : Version.Overlong text.toList) : Unusable (.text text)
  | unwritable {value : Value} (large : value.isWritable = false) : Unusable value

/-- What is installed under the names: texts, versions that can be compared, and values that
are neither. -/
structure Installed where
  entries : List (Value × Value)
  ranked : ∀ entry ∈ entries, ∀ v, entry.2 = .version v → v.Ranked

theorem answer_fails {dependency : Value × Range} {fault : Fault}
    (fails : answer installed dependency = .error fault) : ∃ cause, fault = .numeral cause := by
  unfold answer at fails
  cases entry : installed? installed dependency.1 with
  | none => simp [entry] at fails
  | some value =>
      simp only [entry, bind_eq_error_iff, pure_eq_ok, reduceCtorEq, and_false, exists_false,
        or_false] at fails
      rcases fails with unread | ⟨_, -, unwritten⟩
      · rcases taken_cases value with ⟨_, -, isTaken, -⟩ | ⟨_, -, isTaken, -⟩ |
          ⟨_, cause, -, -, isTaken, -⟩
        all_goals
          rw [isTaken] at unread
          cases unread
        exact ⟨cause, rfl⟩
      · unfold checkWritable at unwritten
        split at unwritten
        · cases unwritten
        · cases unwritten
          exact ⟨_, rfl⟩

theorem answer_succeeds_iff {dependency : Value × Range} :
    (∃ finding, answer installed dependency = .ok finding) ↔
      ∀ value, installed? installed dependency.1 = some value → ¬Unusable value := by
  unfold answer
  cases entry : installed? installed dependency.1 with
  | none => simp
  | some value =>
      simp only [bind_eq_ok_iff, pure_eq_ok, Except.ok.injEq, Option.some.injEq, forall_eq']
      cases writable : value.isWritable with
      | false =>
          refine iff_of_false ?_ fun usable => usable (.unwritable writable)
          rintro ⟨_, _, -, _, written, -⟩
          simp [checkWritable, writable] at written
      | true =>
          have written : checkWritable value = .ok () := if_pos writable
          rcases taken_cases value with ⟨v, stands, isTaken, -⟩ | ⟨_, none, isTaken, -⟩ |
            ⟨text, cause, rfl, unread, refused, -⟩
          · refine iff_of_true ⟨_, _, isTaken, (), written, rfl⟩ ?_
            rintro (⟨long⟩ | large)
            · cases stands with
              | text read =>
                  obtain ⟨_, unread⟩ := Version.parseChars_numeral_iff_overlong.mpr long
                  cases read.symm.trans unread
            · simp [writable] at large
          · refine iff_of_true ⟨_, _, isTaken, (), written, rfl⟩ ?_
            rintro (⟨long⟩ | large)
            · obtain ⟨_, unread⟩ := Version.parseChars_numeral_iff_overlong.mpr long
              have fault := isTaken
              simp [taken, Version.ofValue, Version.parse, unread] at fault
            · simp [writable] at large
          · refine iff_of_false ?_ fun usable =>
              usable (.overlong (Version.parseChars_numeral_iff_overlong.mp ⟨cause, unread⟩))
            rintro ⟨_, _, isTaken, -⟩
            cases refused.symm.trans isTaken

theorem ofManifest_succeeds_iff :
    (∃ findings, (Noting.collect (ofManifest m installed)).1 = .ok findings) ↔
      ∀ dependency ∈ m.dependencies, ∀ value,
        installed? installed dependency.1 = some value → ¬Unusable value := by
  rw [(comesTo_ofManifest m installed).collect, mapM_succeeds_iff]
  exact forall₂_congr fun dependency _ => answer_succeeds_iff

/-- A check returns unless the installed value of a dependency is unusable, and then fails
with a fault of numerals.  If it returns, there is a finding for each dependency, and what
stands for no version is incompatible and warned of. -/
theorem checks_unless_unusable (m : Manifest) (installed : Installed) :
    ((∃ findings, (Noting.collect (ofManifest m installed.entries)).1 = .ok findings) ↔
        ∀ dependency ∈ m.dependencies, ∀ value,
          installed? installed.entries dependency.1 = some value → ¬Unusable value) ∧
      (∀ fault, (Noting.collect (ofManifest m installed.entries)).1 = .error fault →
        ∃ cause, fault = .numeral cause) ∧
      ∀ findings, (Noting.collect (ofManifest m installed.entries)).1 = .ok findings →
        List.Forall₂
          (fun dependency finding => finding.name = dependency.1 ∧
            ∀ value, installed? installed.entries dependency.1 = some value →
              (∀ v, ¬Stands value v) → finding.status = .incompatible ∧
                ∃ cause, refusal? value = some cause ∧
                  .ignoredInstalled dependency.1 cause ∈
                    (Noting.collect (ofManifest m installed.entries)).2)
          m.dependencies findings := by
  obtain ⟨installed, -⟩ := installed
  have outcome := (comesTo_ofManifest m installed).collect
  refine ⟨ofManifest_succeeds_iff, ?_, ?_⟩
  · intro fault fails
    rw [outcome, mapM_eq_error_iff] at fails
    obtain ⟨_, _, _, -, refused, -⟩ := fails
    exact answer_fails refused
  · intro findings checked
    rw [outcome] at checked
    rw [(notes_ofManifest checked).collect]
    have each := mapM_eq_ok_iff.mp checked
    refine List.forall₂_iff_zip.mpr ⟨each.length_eq, fun {dependency finding} pair => ?_⟩
    have answers := answers_of_answer ((List.forall₂_iff_zip.mp each).2 pair)
    refine ⟨answers.name, fun value entry none => ⟨?_, ?_⟩⟩
    · exact answers.incompatible.mpr ⟨value, entry, fun v stands => absurd stands (none v)⟩
    · have warned := answers.warned.mpr ⟨value, entry, none⟩
      have warning : warning? installed dependency.1 =
          (refusal? value).map (.ignoredInstalled dependency.1) := by
        rw [warning?, entry]
        rfl
      rw [warning, Option.isSome_map] at warned
      obtain ⟨cause, refused⟩ := Option.isSome_iff_exists.mp warned
      refine ⟨cause, refused, List.mem_filterMap.mpr ⟨dependency, (List.of_mem_zip pair).1, ?_⟩⟩
      rw [warning, refused]
      rfl

/-- A prerelease number of more digits than are read. -/
theorem not_checks_of_overlong :
    ¬∀ (m : Manifest) (installed : List (Value × Value)),
      (∀ entry ∈ installed, ∃ text, entry.2 = .text text) →
        ∃ findings, (Noting.collect (ofManifest m installed)).1 = .ok findings := by
  intro returns
  let text := String.ofList ("1.0.0-".toList ++ List.replicate 4301 '1')
  have long : Version.Overlong text.toList := by
    rw [String.toList_ofList]
    apply Version.overlong_of_digits (isNumericForm_replicate (by decide) (by decide) (by decide))
    rw [List.length_replicate]
    decide
  obtain ⟨findings, checked⟩ := returns
    ⟨"timer", .release 1 4 0, ["us"], "", [(.text "core", ⟨[[.any {}]]⟩)]⟩
    [(.text "core", .text text)] (by simp)
  refine ofManifest_succeeds_iff.mp ⟨findings, checked⟩ _ List.mem_cons_self _ rfl ?_
  exact .overlong long

end Finding

end VersionRange
