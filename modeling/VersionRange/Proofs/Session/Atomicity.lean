import VersionRange.Proofs.Session.Actions
import VersionRange.Proofs.Session.Refinement

/-!
# When a configuration fails

Settings are put in force before their cache is started.  Settings that cannot be loaded
leave the session as it was; settings whose cache is too large are refused, yet they stay in
force beside the old cache.
-/

namespace VersionRange

namespace Session

/-- If the step fails to configure the session, the settings and the cache stay as they
were. -/
def FailsAtomically (step : Step) (session : Session) : Prop :=
  ∀ argument fault reached, step.configures? session = some argument →
    (configure step.world argument).run.run session = (.error fault, reached) →
      (step.perform session).2.settings = session.settings ∧
        (step.perform session).2.cache = session.cache

section Failing

variable {session reached : Session} {world : World} {argument : Option Settings} {fault : Fault}

/-- A configuration fails for want of settings, or because their cache is too large. -/
theorem configure_fails_iff :
    (configure world argument).run.run session = (.error fault, reached) ↔
      settingsToInstall world argument = .error fault ∧ reached = session ∨
        ∃ settings, settingsToInstall world argument = .ok settings ∧
          cacheSizeLimit < settings.cacheSize ∧ fault = .cacheTooLarge ∧
            reached = { session with settings := some settings } := by
  cases loading : settingsToInstall world argument with
  | error cause =>
      rw [run_configure_of_error loading]
      constructor
      · rintro ⟨⟩
        exact .inl ⟨rfl, rfl⟩
      · rintro (⟨⟨⟩, rfl⟩ | ⟨settings, ⟨⟩, -⟩)
        rfl
  | ok settings =>
      rw [run_configure_of_ok loading]
      by_cases oversized : cacheSizeLimit < settings.cacheSize
      · rw [run_install_of_oversized oversized]
        constructor
        · rintro ⟨⟩
          exact .inr ⟨settings, rfl, oversized, rfl, rfl⟩
        · rintro (⟨⟨⟩, -⟩ | ⟨_, ⟨⟩, -, rfl, rfl⟩)
          rfl
      · rw [run_install_of_fits (Int.not_lt.mp oversized)]
        constructor
        · rintro ⟨⟩
        · rintro (⟨⟨⟩, -⟩ | ⟨_, ⟨⟩, exceeds, -⟩)
          exact absurd exceeds oversized

/-- A step ends with the configuration that fails in it. -/
theorem perform_of_failing {step : Step} (configures : step.configures? session = some argument)
    (fails : (configure step.world argument).run.run session = (.error fault, reached)) :
    step.perform session = (.error fault, reached) := by
  obtain ⟨next, performed⟩ := perform_of_configures configures
  rw [performed, run_bind_of_error fails]

end Failing

/-- A configuration that fails leaves no trace, unless it fails for a cache that is too large
and its settings were not in force before. -/
theorem failsAtomically_iff (step : Step) (session : Session) :
    FailsAtomically step session ↔
      ∀ argument settings, step.configures? session = some argument →
        settingsToInstall step.world argument = .ok settings →
          cacheSizeLimit < settings.cacheSize → session.settings = some settings := by
  constructor
  · intro atomic argument settings configures loading oversized
    have fails : (configure step.world argument).run.run session =
        (.error .cacheTooLarge, { session with settings := some settings }) :=
      configure_fails_iff.mpr (.inr ⟨settings, loading, oversized, rfl, rfl⟩)
    obtain ⟨same, -⟩ := atomic _ _ _ configures fails
    rw [perform_of_failing configures fails] at same
    exact same.symm
  · intro inForce argument fault reached configures fails
    rw [perform_of_failing configures fails]
    rcases configure_fails_iff.mp fails with ⟨-, rfl⟩ | ⟨settings, loading, oversized, -, rfl⟩
    · exact ⟨rfl, rfl⟩
    · exact ⟨(inForce argument settings configures loading oversized).symm, rfl⟩

/-- Settings with a cache of ten ranges are in force. -/
def modestly : List Step :=
  [⟨bare, .configure (some ⟨true, 10⟩)⟩]

/-- The size of the cache exceeds the limit by one. -/
def oversizing : Step :=
  ⟨bare, .configure (some ⟨false, 9223372036854775808⟩)⟩

/-- The oversized settings are refused, but the next question for settings is answered with
them. -/
theorem not_failsAtomically_of_oversizing :
    ¬FailsAtomically oversizing (after modestly) ∧
      ((Step.mk bare .getSettings).perform (after modestly)).1 = .ok (.settings ⟨true, 10⟩) ∧
        (oversizing.perform (after modestly)).1 = .error .cacheTooLarge ∧
          ((Step.mk bare .getSettings).perform (after (oversizing :: modestly))).1 =
            .ok (.settings ⟨false, 9223372036854775808⟩) := by
  refine ⟨fun atomic => ?_, rfl, rfl, rfl⟩
  obtain ⟨same, -⟩ := atomic _ _ _ rfl rfl
  cases same

end Session

end VersionRange
