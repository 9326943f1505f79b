import VersionRange.Proofs.Fallible
import VersionRange.Proofs.Session.Requests

/-!
# The steps of a session

A cache remembers only what reading gives.  Each step of a session keeps it so, and has
the outcome of the step that goes without a cache.
-/

namespace VersionRange

open Fallible

namespace RangeCache

/-- What is remembered under a key is what reading its text gives. -/
def Faithful (cache : RangeCache) : Prop :=
  ∀ entry ∈ cache.entries, Range.parse entry.1.options entry.1.text = .ok entry.2.range

variable {cache : RangeCache}

theorem faithful_empty (capacity : Nat) : (empty capacity).Faithful := by
  intro entry member
  cases member

theorem Faithful.insert (faithful : cache.Faithful) {key : CacheKey} {found : StampedRange}
    (read : Range.parse key.options key.text = .ok found.range) :
    (cache.insert key found).Faithful := by
  intro entry member
  rcases List.mem_cons.mp (List.mem_of_mem_take member) with rfl | old
  · exact read
  · exact faithful entry old

theorem Faithful.use (faithful : cache.Faithful) {key : CacheKey} {found : StampedRange}
    {used : RangeCache} (hit : cache.use? key = some (found, used)) :
    Range.parse key.options key.text = .ok found.range ∧ used.Faithful := by
  unfold use? at hit
  cases entry : cache.entries.lookup key with
  | none =>
      rw [entry] at hit
      cases hit
  | some remembered =>
      rw [entry] at hit
      cases hit
      obtain ⟨before, after, split, -⟩ := List.lookup_eq_some_iff.mp entry
      have read := faithful (key, found) (by simp [split])
      refine ⟨read, fun other member => ?_⟩
      rcases List.mem_cons.mp member with rfl | old
      · exact read
      · exact faithful other (List.mem_of_mem_filter old)

end RangeCache

namespace Session

/-- The settings in force are the given ones, and the cache is faithful. -/
structure Settled (settings : Option Settings) (session : Session) : Prop where
  settings : session.settings = settings
  cache : ∀ cache, session.cache = some cache → cache.Faithful

theorem settled_initial : initial.Settled none :=
  ⟨rfl, fun _ absurd => by cases absurd⟩

/-- From the session, the computation has the outcome and leaves the settings in force. -/
structure Yields {α : Type} (session : Session) (computation : InSession α)
    (outcome : Except Fault α) (settings : Option Settings) : Prop where
  outcome : (computation.run.run session).1 = outcome
  settled : (computation.run.run session).2.Settled settings

section Yields

variable {α β : Type} {session reached : Session} {settings : Option Settings}

theorem run_bind_of_ok {computation : InSession α} {value : α}
    (run : computation.run.run session = (.ok value, reached)) (next : α → InSession β) :
    (computation >>= next).run.run session = (next value).run.run reached := by
  rw [ExceptT.run_bind, StateT.run_bind, run]
  rfl

theorem run_bind_of_error {computation : InSession α} {fault : Fault}
    (run : computation.run.run session = (.error fault, reached)) (next : α → InSession β) :
    (computation >>= next).run.run session = (.error fault, reached) := by
  rw [ExceptT.run_bind, StateT.run_bind, run]
  rfl

theorem Settled.yields_pure (settled : session.Settled settings) (value : α) :
    session.Yields (pure value) (.ok value) settings :=
  ⟨rfl, settled⟩

theorem Settled.yields_lift (settled : session.Settled settings) (outcome : Except Fault α) :
    session.Yields (lift outcome) outcome settings := by
  cases outcome with
  | ok value => exact ⟨rfl, settled⟩
  | error fault => exact ⟨rfl, settled⟩

theorem Yields.bind {computation : InSession α} {outcome : Except Fault α} {next : α → InSession β}
    {nextOutcome : α → Except Fault β} (yields : session.Yields computation outcome settings)
    (each : ∀ value reached, outcome = .ok value → Settled settings reached →
      reached.Yields (next value) (nextOutcome value) settings) :
    session.Yields (computation >>= next) (outcome >>= nextOutcome) settings := by
  obtain ⟨same, settled⟩ := yields
  rcases step : computation.run.run session with ⟨result, reached⟩
  rw [step] at same settled
  subst same
  cases result with
  | error fault =>
      have whole := run_bind_of_error step next
      exact ⟨congrArg Prod.fst whole, whole ▸ settled⟩
  | ok value =>
      have whole := run_bind_of_ok step next
      obtain ⟨last, after⟩ := each value reached rfl settled
      exact ⟨whole ▸ last, whole ▸ after⟩

theorem Yields.map {computation : InSession α} {outcome : Except Fault α}
    (yields : session.Yields computation outcome settings) (f : α → β) :
    session.Yields (do return f (← computation)) (outcome.map f) settings := by
  have mapped : outcome.map f = outcome >>= fun value => .ok (f value) := by
    cases outcome <;> rfl
  rw [mapped]
  exact yields.bind fun value _ _ settled => settled.yields_pure (f value)

end Yields

/-- The cache that a look-up finds. -/
def memory (session : Session) : RangeCache :=
  session.cache.getD (RangeCache.empty defaultCapacity)

section Runs

variable {session : Session} {options : ParseOptions} {text : String}

theorem run_currentCache :
    currentCache.run.run session =
      (.ok session.memory, { session with cache := some session.memory }) := by
  obtain ⟨settings, cache, stamp, journal⟩ := session
  cases cache <;> rfl

theorem run_readStamped_of_error {options : ParseOptions} {text : String} {fault : Fault}
    (read : Range.parseRecorded options text = .error fault) :
    (readStamped options text).run.run session = (.error fault, session) := by
  rw [readStamped, read]
  rfl

theorem run_readStamped_of_ok {options : ParseOptions} {text : String} {range : Range}
    {record : Option JournalRecord}
    (read : Range.parseRecorded options text = .ok (range, record)) :
    (readStamped options text).run.run session =
      (.ok ⟨session.nextStamp, range⟩,
        { session with
          nextStamp := session.nextStamp + 1
          journal := session.journal ++ record.toList }) := by
  rw [readStamped, read]
  rfl

theorem run_lookUp_of_hit {found : StampedRange} {used : RangeCache}
    (hit : session.memory.use? ⟨text, options⟩ = some (found, used)) :
    (lookUp options text).run.run session = (.ok found, { session with cache := some used }) := by
  rw [lookUp, run_bind_of_ok run_currentCache]
  simp only [hit]
  rfl

theorem run_lookUp_of_miss {range : Range} {record : Option JournalRecord}
    (miss : session.memory.use? ⟨text, options⟩ = none)
    (read : Range.parseRecorded options text = .ok (range, record)) :
    (lookUp options text).run.run session =
      (.ok ⟨session.nextStamp, range⟩,
        { session with
          cache := some (session.memory.insert ⟨text, options⟩ ⟨session.nextStamp, range⟩)
          nextStamp := session.nextStamp + 1
          journal := session.journal ++ record.toList }) := by
  rw [lookUp, run_bind_of_ok run_currentCache]
  simp only [miss]
  rw [run_bind_of_ok (run_readStamped_of_ok read)]
  rfl

theorem run_lookUp_of_unread {fault : Fault}
    (miss : session.memory.use? ⟨text, options⟩ = none)
    (read : Range.parseRecorded options text = .error fault) :
    (lookUp options text).run.run session =
      (.error fault, { session with cache := some session.memory }) := by
  rw [lookUp, run_bind_of_ok run_currentCache]
  simp only [miss]
  rw [run_bind_of_error (run_readStamped_of_error read)]

theorem run_install_of_fits {settings : Settings} (fits : settings.cacheSize ≤ cacheSizeLimit) :
    (install settings).run.run session =
      (.ok settings, { session with
        settings := some settings
        cache := some (RangeCache.empty settings.cacheSize.toNat) }) := by
  rw [install, if_neg (Int.not_lt.mpr fits)]
  rfl

theorem run_install_of_oversized {settings : Settings}
    (oversized : cacheSizeLimit < settings.cacheSize) :
    (install settings).run.run session =
      (.error .cacheTooLarge, { session with settings := some settings }) := by
  rw [install, if_pos oversized]
  rfl

end Runs

section Steps

variable {session : Session} {inForce : Option Settings}

theorem Settled.faithful_memory (settled : session.Settled inForce) : session.memory.Faithful := by
  unfold memory
  cases present : session.cache with
  | none => exact RangeCache.faithful_empty defaultCapacity
  | some cache => exact settled.cache cache present

theorem settled_of_cache {cache : RangeCache} (settings : session.settings = inForce)
    (present : session.cache = some cache) (faithful : cache.Faithful) :
    session.Settled inForce := by
  refine ⟨settings, fun other same => ?_⟩
  cases present.symm.trans same
  exact faithful

theorem Settled.yields_lookUp (settled : session.Settled inForce) (options : ParseOptions)
    (text : String) :
    session.Yields (do return (← lookUp options text).range) (Range.parse options text)
      inForce := by
  have faithful := settled.faithful_memory
  cases search : session.memory.use? ⟨text, options⟩ with
  | some entry =>
      obtain ⟨found, used⟩ := entry
      obtain ⟨read, usedFaithful⟩ := faithful.use search
      have whole := run_bind_of_ok (run_lookUp_of_hit search) fun found => pure found.range
      exact ⟨(congrArg Prod.fst whole).trans read.symm,
        whole ▸ settled_of_cache settled.settings rfl usedFaithful⟩
  | none =>
      cases read : Range.parseRecorded options text with
      | error fault =>
          have parsed : Range.parse options text = .error fault := by
            rw [Range.parse, read]
            rfl
          have whole := run_bind_of_error (run_lookUp_of_unread search read) fun found =>
            pure found.range
          exact ⟨(congrArg Prod.fst whole).trans parsed.symm,
            whole ▸ settled_of_cache settled.settings rfl faithful⟩
      | ok result =>
          obtain ⟨range, record⟩ := result
          have parsed : Range.parse options text = .ok range := by
            rw [Range.parse, read]
            rfl
          have whole := run_bind_of_ok (run_lookUp_of_miss search read) fun found =>
            pure found.range
          exact ⟨(congrArg Prod.fst whole).trans parsed.symm,
            whole ▸ settled_of_cache settled.settings rfl (faithful.insert parsed)⟩

theorem yields_install (session : Session) {settings : Settings}
    (fits : settings.cacheSize ≤ cacheSizeLimit) :
    session.Yields (install settings) (.ok settings) (some settings) := by
  have run : (install settings).run.run session = _ := run_install_of_fits fits
  exact ⟨congrArg Prod.fst run,
    run ▸ settled_of_cache rfl rfl (RangeCache.faithful_empty _)⟩

theorem Settled.yields_configure_none (settled : session.Settled inForce) {world : World}
    (fits : ∀ settings, (Settings.load none world).toOption = some settings →
      settings.cacheSize ≤ cacheSizeLimit) :
    session.Yields (configure world none) (Settings.load none world)
      ((Settings.load none world).toOption.or inForce) := by
  cases loading : Settings.load none world with
  | error fault =>
      have refused : (configure world none).run.run session = (.error fault, session) := by
        rw [configure, loading]
        rfl
      exact ⟨congrArg Prod.fst refused, refused ▸ settled⟩
  | ok settings =>
      have same : configure world none = install settings := by
        rw [configure, loading]
        rfl
      rw [same]
      exact yields_install session (fits settings (by rw [loading]; rfl))

theorem run_currentSettings_of_some {settings : Settings} (set : session.settings = some settings)
    (world : World) : (currentSettings world).run.run session = (.ok settings, session) := by
  have start : (get : InSession Session).run.run session = (.ok session, session) := rfl
  rw [currentSettings, run_bind_of_ok start, set]
  rfl

theorem run_currentSettings_of_none (unset : session.settings = none) (world : World) :
    (currentSettings world).run.run session = (configure world none).run.run session := by
  have start : (get : InSession Session).run.run session = (.ok session, session) := rfl
  rw [currentSettings, run_bind_of_ok start, unset]

theorem Settled.yields_currentSettings (settled : session.Settled inForce) {world : World}
    (fits : inForce = none → ∀ settings, (Settings.load none world).toOption = some settings →
      settings.cacheSize ≤ cacheSizeLimit) :
    session.Yields (currentSettings world) (settingsFor inForce world)
      (inForce.or (Settings.load none world).toOption) := by
  cases inForce with
  | some settings =>
      have found := run_currentSettings_of_some settled.settings world
      exact ⟨congrArg Prod.fst found, found ▸ settled⟩
  | none =>
      have loads := run_currentSettings_of_none settled.settings world
      have configured := settled.yields_configure_none (fits rfl)
      rw [Option.or_none] at configured
      constructor
      · rw [loads]
        exact configured.outcome
      · rw [loads]
        exact configured.settled

end Steps

section Questions

theorem lift_bind {α β : Type} (outcome : Except Fault α) (next : α → Except Fault β) :
    lift (outcome >>= next) = lift outcome >>= fun value => lift (next value) := by
  cases outcome with
  | ok value => rfl
  | error fault => rfl

theorem lift_ok {α : Type} (value : α) : lift (.ok value) = pure value :=
  rfl

/-- Posing a question is finding its range and then going on without the session. -/
theorem pose_eq (world : World) (options : Option ParseOptions) (question : Question) :
    question.pose world options =
      rangeOf world options question.source.toRangeSource >>= fun range =>
        lift (question.finish range) := by
  cases question with
  | parse text =>
      simp only [Question.pose, Question.finish, Question.source, Source.toRangeSource, rangeOf,
        lift_ok, bind_assoc, pure_bind]
  | satisfies version source =>
      simp only [Question.pose, Question.finish, Question.source, satisfies, lift_bind, lift_ok,
        pure_eq_ok, bind_assoc, pure_bind]
  | filter versions source =>
      simp only [Question.pose, Question.finish, Question.source, filterSatisfying, lift_bind,
        lift_ok, pure_eq_ok, bind_assoc, pure_bind]
  | max versions source =>
      simp only [Question.pose, Question.finish, Question.source, maxSatisfying, filterSatisfying,
        lift_bind, lift_ok, pure_eq_ok, bind_assoc, pure_bind]

/-- A text without options is read under the current settings. -/
theorem rangeOf_text_eq (world : World) (words : String) :
    rangeOf world none (Source.toRangeSource (.text words)) =
      currentSettings world >>= fun settings => do
        return (← lookUp settings.parseOptions words).range := by
  simp only [rangeOf, Source.toRangeSource, parseRange, bind_assoc, pure_bind]

variable {session : Session} {inForce : Option Settings}

theorem Settled.yields_rangeOf (settled : session.Settled inForce) {world : World}
    {options : Option ParseOptions} {source : Source}
    (fits : inForce = none → ∀ settings, source.loaded? world options = some settings →
      settings.cacheSize ≤ cacheSizeLimit) :
    session.Yields (rangeOf world options source.toRangeSource)
      (source.read inForce world options) (inForce.or (source.loaded? world options)) := by
  cases source with
  | given range =>
      rw [Source.loaded?, Option.or_none]
      exact settled.yields_pure range
  | text words =>
      cases options with
      | some options =>
          have kept : inForce.or (Source.loaded? world (some options) (.text words)) = inForce :=
            Option.or_none
          rw [kept]
          exact settled.yields_lookUp options words
      | none =>
          have outcome : Source.read inForce world none (.text words) =
              settingsFor inForce world >>= fun settings =>
                Range.parse settings.parseOptions words := by
            rw [Source.read, optionsFor]
            cases settingsFor inForce world <;> rfl
          rw [rangeOf_text_eq, outcome]
          apply (settled.yields_currentSettings fits).bind
          intro settings reached _ settled
          exact settled.yields_lookUp settings.parseOptions words

/-- What one request does to a session that is settled. -/
theorem Settled.perform (settled : session.Settled inForce) {request : Request}
    (fits : ∀ settings, request.installed? inForce = some settings →
      settings.cacheSize ≤ cacheSizeLimit) :
    (request.perform session).1 = request.expected inForce ∧
      (request.perform session).2.Settled
        (request.configured?.or (inForce.or request.loaded?)) := by
  obtain ⟨world, call⟩ := request
  suffices yields : session.Yields (call.make world) (Request.expected inForce ⟨world, call⟩)
      ((Request.configured? ⟨world, call⟩).or (inForce.or (Request.loaded? ⟨world, call⟩))) from
    ⟨yields.outcome, yields.settled⟩
  cases call with
  | configure chosen =>
      have kept : inForce.or (Request.loaded? ⟨world, .configure chosen⟩) = inForce :=
        Option.or_none
      rw [kept]
      cases chosen with
      | some settings =>
          exact (yields_install session (fits settings rfl)).map Answer.settings
      | none =>
          refine (settled.yields_configure_none fun settings loads => fits settings ?_).map
            Answer.settings
          simp [Request.installed?, Request.configured?, loads]
  | getSettings =>
      refine (settled.yields_currentSettings fun none settings loads => fits settings ?_).map
        Answer.settings
      simp [Request.installed?, Request.configured?, Request.loaded?, none, loads]
  | ask options question =>
      rw [Call.make, pose_eq]
      refine (settled.yields_rangeOf fun none settings loads => fits settings ?_).bind
        fun range reached _ settled => settled.yields_lift (question.finish range)
      simp [Request.installed?, Request.configured?, Request.loaded?, none, loads]

end Questions

end Session

end VersionRange
