import VersionRange.Proofs.Session.Steps

/-!
# Actions of a session

All that can be asked of a session, with any value in the place of a range text.  An action
that takes its range from a value settles the options, which may configure the session, then
has the range looked up, and after that leaves the session alone.
-/

namespace VersionRange

namespace Session

inductive Action
  | configure (settings : Option Settings)
  | getSettings
  | parse (options : Option ParseOptions) (text : Value)
  | satisfies (options : Option ParseOptions) (version : Value) (source : RangeSource)
  | filter (options : Option ParseOptions) (versions : Value) (source : RangeSource)
  | max (options : Option ParseOptions) (versions : Value) (source : RangeSource)

/-- An action in surroundings of its own. -/
structure Step where
  world : World
  action : Action

def Action.perform (world : World) : Action → InSession Answer
  | configure settings => do return .settings (← Session.configure world settings)
  | getSettings => do return .settings (← currentSettings world)
  | parse options text => do return .range (← parseRange world options text).range
  | satisfies options version source => do
    return .verdict (← Session.satisfies world options version source)
  | filter options versions source => do
    return .versions (← filterSatisfying world options versions source)
  | max options versions source => do
    return .best (← maxSatisfying world options versions source)

/-- The answer to a step, and the session after it. -/
def Step.perform (step : Step) (session : Session) : Except Fault Answer × Session :=
  (step.action.perform step.world).run.run session

/-- The session after the steps, of which the latest stands first. -/
def after : List Step → Session
  | [] => initial
  | step :: past => (step.perform (after past)).2

/-- The options and the source of the range that an action is about. -/
def Action.source? : Action → Option (Option ParseOptions × RangeSource)
  | configure _ | getSettings => none
  | parse options text => some (options, .written text)
  | satisfies options _ source | filter options _ source | max options _ source =>
    some (options, source)

/-- The given options, or those of the settings in force. -/
def chosenOptions (world : World) : Option ParseOptions → InSession ParseOptions
  | some options => pure options
  | none => do return (← currentSettings world).parseOptions

/-- The range of a value under the options. -/
def look (options : ParseOptions) : Value → InSession StampedRange
  | .text words => lookUp options words
  | other => refuse other

theorem parseRange_eq (world : World) (options : Option ParseOptions) (value : Value) :
    parseRange world options value =
      chosenOptions world options >>= fun chosen => look chosen value := by
  cases options <;> cases value <;>
    simp only [parseRange, chosenOptions, look, bind_assoc, pure_bind]

theorem perform_of_source {action : Action} {options : Option ParseOptions}
    {source : RangeSource} (asks : action.source? = some (options, source)) (world : World) :
    ∃ finish : Range → Except Fault Answer,
      action.perform world = rangeOf world options source >>= fun range => lift (finish range) := by
  cases action with
  | configure settings => cases asks
  | getSettings => cases asks
  | parse own text =>
      cases asks
      refine ⟨fun range => .ok (.range range), ?_⟩
      simp only [Action.perform, rangeOf, lift_ok, bind_assoc, pure_bind]
  | satisfies own version source =>
      cases asks
      refine ⟨fun range => versionOf version >>= fun v => .ok (.verdict (range.includes v)), ?_⟩
      simp only [Action.perform, satisfies, lift_bind, lift_ok, bind_assoc, pure_bind]
  | filter own versions source =>
      cases asks
      refine ⟨fun range => (versions.members >>= List.mapM versionOf) >>= fun candidates =>
        .ok (.versions (candidates.filter range.includes)), ?_⟩
      simp only [Action.perform, filterSatisfying, lift_bind, lift_ok, bind_assoc, pure_bind]
  | max own versions source =>
      cases asks
      refine ⟨fun range => (versions.members >>= List.mapM versionOf) >>= fun candidates =>
        .ok (.best (Version.highest? (candidates.filter range.includes))), ?_⟩
      simp only [Action.perform, maxSatisfying, filterSatisfying, lift_bind, lift_ok, bind_assoc,
        pure_bind]

section Leaving

variable {α β : Type} {session : Session}

theorem run_bind_congr {computation other : InSession α}
    (same : computation.run.run session = other.run.run session) (next : α → InSession β) :
    (computation >>= next).run.run session = (other >>= next).run.run session := by
  simp only [ExceptT.run_bind, StateT.run_bind, same]

theorem run_bind_lift_snd (computation : InSession α) (finish : α → Except Fault β) :
    ((computation >>= fun value => lift (finish value)).run.run session).2 =
      (computation.run.run session).2 := by
  rcases run : computation.run.run session with ⟨outcome, reached⟩
  cases outcome with
  | error fault => rw [run_bind_of_error run]
  | ok value =>
      rw [run_bind_of_ok run]
      cases finish value <;> rfl

variable {step : Step} {options : Option ParseOptions}

theorem perform_of_configure {argument : Option Settings}
    (action : step.action = .configure argument) :
    (step.perform session).2 = ((configure step.world argument).run.run session).2 := by
  rw [Step.perform, action]
  exact run_bind_lift_snd (configure step.world argument) fun settings =>
    .ok (Answer.settings settings)

theorem perform_of_getSettings (action : step.action = .getSettings) :
    (step.perform session).2 = ((currentSettings step.world).run.run session).2 := by
  rw [Step.perform, action]
  exact run_bind_lift_snd (currentSettings step.world) fun settings =>
    .ok (Answer.settings settings)

theorem perform_of_given {range : Range}
    (asks : step.action.source? = some (options, .given range)) :
    (step.perform session).2 = session := by
  obtain ⟨finish, performed⟩ := perform_of_source asks step.world
  rw [Step.perform, performed, run_bind_lift_snd]
  rfl

theorem perform_of_written {value : Value}
    (asks : step.action.source? = some (options, .written value)) :
    (step.perform session).2 = ((parseRange step.world options value).run.run session).2 := by
  obtain ⟨finish, performed⟩ := perform_of_source asks step.world
  rw [Step.perform, performed, run_bind_lift_snd]
  exact run_bind_lift_snd (parseRange step.world options value) fun found => .ok found.range

end Leaving

/-- Whether an action needs settings and brings none along. -/
def Action.needsSettings (action : Action) : Bool :=
  match action with
  | getSettings => true
  | action => match action.source? with
    | some (none, .written _) => true
    | _ => false

/-- What a step configures the session with, if it does: the given settings, or none if they
are to be loaded. -/
def Step.configures? (step : Step) (session : Session) : Option (Option Settings) :=
  match step.action with
  | .configure settings => some settings
  | action => if session.settings.isNone && action.needsSettings then some none else none

/-- The settings that a configuration installs: the given ones, or those that are loaded. -/
def settingsToInstall (world : World) : Option Settings → Except Fault Settings
  | some settings => .ok settings
  | none => Settings.load none world

section Configuring

variable {session : Session} {world : World} {settings : Settings}

theorem configure_eq (world : World) (argument : Option Settings) :
    configure world argument = lift (settingsToInstall world argument) >>= install := by
  cases argument <;> rfl

theorem run_configure_of_error {argument : Option Settings} {fault : Fault}
    (missing : settingsToInstall world argument = .error fault) :
    (configure world argument).run.run session = (.error fault, session) := by
  rw [configure_eq, missing]
  rfl

theorem run_configure_of_ok {argument : Option Settings}
    (present : settingsToInstall world argument = .ok settings) :
    (configure world argument).run.run session = (install settings).run.run session := by
  rw [configure_eq, present]
  rfl

variable {step : Step}

theorem needsSettings_cases {action : Action} (needs : action.needsSettings = true) :
    action = .getSettings ∨ ∃ value, action.source? = some (none, .written value) := by
  unfold Action.needsSettings at needs
  split at needs
  · exact .inl rfl
  · split at needs
    next value asks => exact .inr ⟨value, asks⟩
    · cases needs

theorem configures?_cases {argument : Option Settings}
    (configures : step.configures? session = some argument) :
    step.action = .configure argument ∨
      argument = none ∧ session.settings = none ∧ step.action.needsSettings = true := by
  unfold Step.configures? at configures
  split at configures
  next settings same =>
    cases configures
    exact .inl same
  · split at configures
    next unset =>
      cases configures
      rw [Bool.and_eq_true, Option.isNone_iff_eq_none] at unset
      exact .inr ⟨rfl, unset⟩
    · cases configures

theorem needsSettings_of_written {action : Action} {options : Option ParseOptions} {value : Value}
    (asks : action.source? = some (options, .written value)) :
    action.needsSettings = options.isNone := by
  cases action <;> cases asks <;> cases options <;> rfl

theorem needsSettings_of_given {action : Action} {options : Option ParseOptions} {range : Range}
    (asks : action.source? = some (options, .given range)) : action.needsSettings = false := by
  cases action <;> cases asks <;> cases options <;> rfl

theorem configures?_of_configure {argument : Option Settings}
    (action : step.action = .configure argument) : step.configures? session = some argument := by
  rw [Step.configures?, action]

theorem configures?_of_ne_configure (others : ∀ argument, step.action ≠ .configure argument) :
    step.configures? session =
      if session.settings.isNone && step.action.needsSettings then some none else none := by
  unfold Step.configures?
  split
  next settings action => exact absurd action (others settings)
  · rfl

theorem ne_configure_of_needsSettings {action : Action} (needs : action.needsSettings = true)
    (argument : Option Settings) : action ≠ .configure argument := by
  rintro rfl
  cases needs

theorem configures?_of_needsSettings (needs : step.action.needsSettings = true)
    (unset : session.settings = none) : step.configures? session = some none := by
  rw [configures?_of_ne_configure (ne_configure_of_needsSettings needs), unset, needs]
  rfl

theorem configures?_of_settings (needs : step.action.needsSettings = true)
    (set : session.settings = some settings) : step.configures? session = none := by
  rw [configures?_of_ne_configure (ne_configure_of_needsSettings needs), set]
  rfl

theorem configures?_of_source {asked : Option ParseOptions × RangeSource}
    (asks : step.action.source? = some asked) (contained : step.action.needsSettings = false) :
    step.configures? session = none := by
  have others (argument : Option Settings) : step.action ≠ .configure argument := by
    intro action
    rw [action] at asks
    cases asks
  rw [configures?_of_ne_configure others, contained, Bool.and_false]
  rfl

/-- A step that configures the session does so before anything else. -/
theorem perform_of_configures {argument : Option Settings}
    (configures : step.configures? session = some argument) :
    ∃ next : Settings → InSession Answer,
      step.perform session = (configure step.world argument >>= next).run.run session := by
  rcases configures?_cases configures with action | ⟨rfl, unset, needs⟩
  · rw [Step.perform, action]
    exact ⟨_, rfl⟩
  · have start := run_currentSettings_of_none unset step.world
    rcases needsSettings_cases needs with action | ⟨value, asks⟩
    · rw [Step.perform, action]
      exact ⟨_, run_bind_congr start _⟩
    · obtain ⟨finish, performed⟩ := perform_of_source asks step.world
      rw [Step.perform, performed]
      simp only [rangeOf, parseRange_eq, chosenOptions, bind_assoc]
      exact ⟨_, run_bind_congr start _⟩

end Configuring

end Session

end VersionRange
