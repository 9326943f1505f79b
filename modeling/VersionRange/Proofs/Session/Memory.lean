import VersionRange.Proofs.Session.Actions
import VersionRange.Proofs.Session.Recency
import VersionRange.Proofs.Session.Refinement

/-!
# The memory of a session

A session remembers the ranges that were found last since its cache was started.  Which those
are is read off the events of its history: a cache is started, or a range is found under a
key.
-/

namespace VersionRange

/-- What a session does to its memory.  Lists of events have the latest in front. -/
inductive Event
  /-- A configuration starts a cache of the given size. -/
  | opened (size : Int)
  /-- A look-up of the key gives the range. -/
  | found (key : CacheKey) (range : StampedRange)

namespace Event

/-- The ranges that were found since a cache was started. -/
def uses : List Event → List (CacheKey × StampedRange)
  | [] => []
  | opened _ :: _ => []
  | found key range :: past => (key, range) :: uses past

/-- The keys under which ranges were found since a cache was started. -/
def keys (events : List Event) : List CacheKey :=
  (uses events).map Prod.fst

/-- How many ranges are remembered. -/
def capacity : List Event → Nat
  | [] => Session.defaultCapacity
  | opened size :: _ => size.toNat
  | found _ _ :: past => capacity past

/-- The cache after the events. -/
def cache (events : List Event) : RangeCache :=
  ⟨capacity events, (latestUses (uses events)).take (capacity events)⟩

variable {events : List Event} {key : CacheKey} {range : StampedRange}

theorem cache_opened (size : Int) (past : List Event) :
    cache (.opened size :: past) = RangeCache.empty size.toNat :=
  congrArg (RangeCache.mk size.toNat) List.take_nil

theorem mem_of_mem_uses (member : (key, range) ∈ uses events) : .found key range ∈ events := by
  induction events with
  | nil => cases member
  | cons event past ih =>
      cases event with
      | opened size => cases member
      | found other earlier =>
          rcases List.mem_cons.mp member with same | later
          · cases same
            exact List.mem_cons_self
          · exact List.mem_cons_of_mem _ (ih later)

theorem mem_keys_cache_iff :
    key ∈ (cache events).entries.map Prod.fst ↔ Recent (capacity events) key (keys events) :=
  mem_take_latestUses_iff

theorem nodup_keys_cache : ((cache events).entries.map Prod.fst).Nodup :=
  (nodup_latestUses (uses events)).sublist ((List.take_sublist _ _).map Prod.fst)

theorem mem_of_mem_cache (member : (key, range) ∈ (cache events).entries) :
    .found key range ∈ events :=
  mem_of_mem_uses (mem_of_mem_latestUses (List.mem_of_mem_take member))

/-- A key that is remembered moves to the front. -/
theorem use?_cache {remembered : StampedRange} {used : RangeCache}
    (hit : (cache events).use? key = some (remembered, used)) :
    (key, remembered) ∈ (cache events).entries ∧
      used = cache (.found key remembered :: events) := by
  unfold RangeCache.use? at hit
  split at hit
  · cases hit
  next found entry =>
    cases hit
    obtain ⟨before, after, split, -⟩ := List.lookup_eq_some_iff.mp entry
    have member : (key, remembered) ∈ (cache events).entries := by simp [split]
    refine ⟨member, ?_⟩
    exact congrArg (RangeCache.mk (capacity events))
      (take_latestUses_of_mem (List.mem_map_of_mem member))

theorem use?_cache_eq_none_iff :
    (cache events).use? key = none ↔ ¬Recent (capacity events) key (keys events) := by
  rw [← mem_keys_cache_iff]
  unfold RangeCache.use?
  cases entry : (cache events).entries.lookup key with
  | none =>
      have absent := List.lookup_eq_none_iff.mp entry
      simp only [true_iff, List.mem_map, not_exists, not_and]
      rintro use member rfl
      simpa using absent use member
  | some found =>
      obtain ⟨before, after, split, -⟩ := List.lookup_eq_some_iff.mp entry
      simp [split]

/-- A key that is not remembered is put in front, and the last one may have to go. -/
theorem insert_cache (missing : (cache events).use? key = none) :
    (cache events).insert key range = cache (.found key range :: events) := by
  have absent := mem_keys_cache_iff.not.mpr (use?_cache_eq_none_iff.mp missing)
  exact congrArg (RangeCache.mk (capacity events)) (take_latestUses_of_notMem absent)

end Event

namespace Session

def openedBy : Except Fault Settings → List Event
  | .ok settings => [.opened settings.cacheSize]
  | .error _ => []

def foundBy (key : CacheKey) : Except Fault StampedRange → List Event
  | .ok range => [.found key range]
  | .error _ => []

/-- The cache that a step starts, if it configures the session. -/
def Step.openings (step : Step) (session : Session) : List Event :=
  match step.configures? session with
  | some argument => openedBy ((configure step.world argument).run.run session).1
  | none => []

/-- The key that a step looks up, and the session in which it does so: that is where the
options have been settled. -/
def Step.lookUp? (step : Step) (session : Session) : Option (CacheKey × Session) :=
  match step.action.source? with
  | some (options, .written (.text words)) =>
    match (chosenOptions step.world options).run.run session with
    | (.ok chosen, reached) => some (⟨words, chosen⟩, reached)
    | (.error _, _) => none
  | _ => none

/-- The range that a step finds by a look-up. -/
def Step.findings (step : Step) (session : Session) : List Event :=
  match step.lookUp? session with
  | some (key, reached) => foundBy key ((lookUp key.options key.text).run.run reached).1
  | none => []

/-- The events of a history, whose latest step stands first. -/
def events : List Step → List Event
  | [] => []
  | step :: past => step.findings (after past) ++ (step.openings (after past) ++ events past)

/-- The events before a step looks anything up: its own configuration is the last of them. -/
def eventsBefore (step : Step) (past : List Step) : List Event :=
  step.openings (after past) ++ events past

/-- The session remembers what the events say, and the stamps of the ranges that were found
are not given again. -/
structure Remembers (session : Session) (events : List Event) : Prop where
  memory : session.memory = Event.cache events
  earlier : ∀ key range, .found key range ∈ events → range.stamp < session.nextStamp

theorem remembers_initial : initial.Remembers [] where
  memory := rfl
  earlier key range member := by cases member

section Steps

variable {session : Session} {events : List Event} {world : World}

theorem Remembers.hit (remembers : session.Remembers events) {key : CacheKey}
    {found : StampedRange} {used : RangeCache}
    (hit : session.memory.use? key = some (found, used)) :
    Remembers { session with cache := some used } (.found key found :: events) := by
  rw [remembers.memory] at hit
  obtain ⟨member, rfl⟩ := Event.use?_cache hit
  refine ⟨rfl, fun other range among => ?_⟩
  rcases List.mem_cons.mp among with same | before
  · cases same
    exact remembers.earlier key found (Event.mem_of_mem_cache member)
  · exact remembers.earlier other range before

theorem Remembers.miss (remembers : session.Remembers events) {key : CacheKey}
    (miss : session.memory.use? key = none) (range : Range) (journal : Journal) :
    Remembers
      { session with
        cache := some (session.memory.insert key ⟨session.nextStamp, range⟩)
        nextStamp := session.nextStamp + 1
        journal := journal }
      (.found key ⟨session.nextStamp, range⟩ :: events) := by
  rw [remembers.memory] at miss ⊢
  refine ⟨Event.insert_cache miss, fun other earlier among => ?_⟩
  rcases List.mem_cons.mp among with same | before
  · cases same
    exact Nat.lt_succ_self session.nextStamp
  · exact Nat.lt_succ_of_lt (remembers.earlier other earlier before)

theorem Remembers.kept (remembers : session.Remembers events) :
    Remembers { session with cache := some session.memory } events :=
  ⟨remembers.memory, remembers.earlier⟩

theorem Remembers.lookUp (remembers : session.Remembers events) (key : CacheKey) :
    ((lookUp key.options key.text).run.run session).2.Remembers
      (foundBy key ((lookUp key.options key.text).run.run session).1 ++ events) := by
  cases search : session.memory.use? key with
  | some entry =>
      obtain ⟨found, used⟩ := entry
      rw [run_lookUp_of_hit search]
      exact remembers.hit search
  | none =>
      cases read : Range.parseRecorded key.options key.text with
      | error fault =>
          rw [run_lookUp_of_unread search read]
          exact remembers.kept
      | ok result =>
          obtain ⟨range, record⟩ := result
          rw [run_lookUp_of_miss search read]
          exact remembers.miss search range _

theorem Remembers.configure (remembers : session.Remembers events) (argument : Option Settings) :
    ((configure world argument).run.run session).2.Remembers
      (openedBy ((configure world argument).run.run session).1 ++ events) := by
  cases loading : settingsToInstall world argument with
  | error fault =>
      rw [run_configure_of_error loading]
      exact remembers
  | ok settings =>
      rw [run_configure_of_ok loading]
      by_cases oversized : cacheSizeLimit < settings.cacheSize
      · rw [run_install_of_oversized oversized]
        exact ⟨remembers.memory, remembers.earlier⟩
      · rw [run_install_of_fits (Int.not_lt.mp oversized)]
        refine ⟨(Event.cache_opened _ _).symm, fun key range member => ?_⟩
        rcases List.mem_cons.mp member with absurd | before
        · cases absurd
        · exact remembers.earlier key range before

variable {step : Step} {options : Option ParseOptions} {value : Value}

theorem Remembers.currentSettings (remembers : session.Remembers events)
    (needs : step.action.needsSettings = true) :
    ((currentSettings step.world).run.run session).2.Remembers
      (step.openings session ++ events) := by
  cases set : session.settings with
  | some settings =>
      rw [run_currentSettings_of_some set, Step.openings, configures?_of_settings needs set]
      exact remembers
  | none =>
      rw [run_currentSettings_of_none set, Step.openings, configures?_of_needsSettings needs set]
      exact remembers.configure none

/-- Settling the options is where a step may start a cache. -/
theorem Remembers.chosenOptions (remembers : session.Remembers events)
    (asks : step.action.source? = some (options, .written value)) :
    ((chosenOptions step.world options).run.run session).2.Remembers
      (step.openings session ++ events) := by
  have needs := needsSettings_of_written asks
  cases options with
  | some chosen =>
      rw [Step.openings, configures?_of_source asks needs]
      exact remembers
  | none =>
      have same : ((Session.chosenOptions step.world none).run.run session).2 =
          ((Session.currentSettings step.world).run.run session).2 :=
        run_bind_lift_snd (Session.currentSettings step.world)
          fun settings : Settings => .ok settings.parseOptions
      rw [same]
      exact remembers.currentSettings needs

theorem run_look_of_ne_text (notText : ∀ words, value ≠ .text words) (options : ParseOptions) :
    ((Session.look options value).run.run session).2 =
      { session with cache := some session.memory } := by
  have refused : ((refuse value).run.run session).2 =
      { session with cache := some session.memory } := by
    rw [refuse, run_bind_of_ok run_currentCache]
    split <;> rfl
  cases value with
  | text words => exact absurd rfl (notText words)
  | _ => exact refused

theorem lookUp?_eq_some_iff {key : CacheKey} {reached : Session} :
    step.lookUp? session = some (key, reached) ↔
      ∃ options, step.action.source? = some (options, .written (.text key.text)) ∧
        (Session.chosenOptions step.world options).run.run session =
          (.ok key.options, reached) := by
  obtain ⟨words, chosen⟩ := key
  unfold Step.lookUp?
  constructor
  · intro looks
    split at looks
    next options words asks =>
      split at looks
      next chosen reached run =>
        cases looks
        exact ⟨options, asks, run⟩
      · cases looks
    · cases looks
  · rintro ⟨options, asks, run⟩
    simp only [asks, run]

/-- A step that looks up a key goes on with the range alone. -/
theorem perform_of_lookUp? {key : CacheKey} {reached : Session}
    (looks : step.lookUp? session = some (key, reached)) :
    ∃ finish : Range → Except Fault Answer, step.perform session =
      (Session.lookUp key.options key.text >>= fun found =>
        lift (finish found.range)).run.run reached := by
  obtain ⟨options, asks, run⟩ := lookUp?_eq_some_iff.mp looks
  obtain ⟨finish, performed⟩ := perform_of_source asks step.world
  refine ⟨finish, ?_⟩
  rw [Step.perform, performed]
  simp only [rangeOf, parseRange_eq, bind_assoc, pure_bind]
  rw [run_bind_of_ok run]
  rfl

theorem Remembers.reached (remembers : session.Remembers events) {key : CacheKey}
    {reached : Session} (looks : step.lookUp? session = some (key, reached)) :
    reached.Remembers (step.openings session ++ events) := by
  obtain ⟨options, asks, run⟩ := lookUp?_eq_some_iff.mp looks
  have settled := remembers.chosenOptions asks
  rwa [run] at settled

theorem findings_of_lookUp? {key : CacheKey} {reached : Session}
    (looks : step.lookUp? session = some (key, reached)) :
    step.findings session = foundBy key ((lookUp key.options key.text).run.run reached).1 := by
  rw [Step.findings, looks]

theorem findings_of_none (silent : step.lookUp? session = none) : step.findings session = [] := by
  rw [Step.findings, silent]

theorem lookUp?_eq_none (otherwise : ∀ options words,
    step.action.source? ≠ some (options, .written (.text words))) :
    step.lookUp? session = none := by
  refine Option.eq_none_iff_forall_ne_some.mpr fun ⟨key, reached⟩ looks => ?_
  obtain ⟨options, asks, -⟩ := lookUp?_eq_some_iff.mp looks
  exact otherwise options key.text asks

/-- After the options have been settled, a text is looked up and any other value is refused. -/
theorem Remembers.look (remembers : session.Remembers events)
    (asks : step.action.source? = some (options, .written value)) :
    (step.perform session).2.Remembers
      (step.findings session ++ (step.openings session ++ events)) := by
  have settled := remembers.chosenOptions asks
  rw [perform_of_written asks, parseRange_eq]
  rcases run : (Session.chosenOptions step.world options).run.run session with ⟨outcome, reached⟩
  rw [run] at settled
  cases outcome with
  | error fault =>
      have silent : step.lookUp? session = none := by
        refine Option.eq_none_iff_forall_ne_some.mpr fun ⟨key, other⟩ looks => ?_
        obtain ⟨own, sameAsks, ran⟩ := lookUp?_eq_some_iff.mp looks
        rw [asks] at sameAsks
        cases sameAsks
        cases run.symm.trans ran
      rw [run_bind_of_error run, findings_of_none silent, List.nil_append]
      exact settled
  | ok chosen =>
      rw [run_bind_of_ok run]
      by_cases isText : ∃ words, value = .text words
      · obtain ⟨words, rfl⟩ := isText
        have looks : step.lookUp? session = some (⟨words, chosen⟩, reached) :=
          lookUp?_eq_some_iff.mpr ⟨options, asks, run⟩
        rw [findings_of_lookUp? looks]
        exact settled.lookUp ⟨words, chosen⟩
      · have notText : ∀ words, value ≠ .text words := not_exists.mp isText
        have silent : step.lookUp? session = none := by
          refine lookUp?_eq_none fun own words other => notText words ?_
          rw [asks] at other
          cases other
          rfl
        rw [run_look_of_ne_text notText, findings_of_none silent, List.nil_append]
        exact settled.kept

/-- Whatever a step does to the memory is among its events. -/
theorem Remembers.perform (remembers : session.Remembers events) (step : Step) :
    (step.perform session).2.Remembers
      (step.findings session ++ (step.openings session ++ events)) := by
  cases asks : step.action.source? with
  | none =>
      -- An action that is about no range can only configure the session.
      have silent : step.lookUp? session = none := lookUp?_eq_none (by simp [asks])
      rw [findings_of_none silent, List.nil_append]
      cases action : step.action with
      | configure argument =>
          rw [perform_of_configure action, Step.openings, configures?_of_configure action]
          exact remembers.configure argument
      | getSettings =>
          have needs : step.action.needsSettings = true := by rw [action]; rfl
          rw [perform_of_getSettings action]
          exact remembers.currentSettings needs
      | parse | satisfies | filter | max =>
          rw [action] at asks
          cases asks
  | some asked =>
      obtain ⟨options, source⟩ := asked
      cases source with
      | written value => exact remembers.look asks
      | given range =>
          have silent : step.lookUp? session = none := lookUp?_eq_none (by simp [asks])
          rw [perform_of_given asks, findings_of_none silent, List.nil_append, Step.openings,
            configures?_of_source asks (needsSettings_of_given asks), List.nil_append]
          exact remembers

theorem found_notMem_openedBy {key : CacheKey} {range : StampedRange}
    (outcome : Except Fault Settings) : .found key range ∉ openedBy outcome := by
  cases outcome <;> simp [openedBy]

theorem found_mem_openings_append_iff {key : CacheKey} {range : StampedRange} :
    .found key range ∈ step.openings session ++ events ↔ .found key range ∈ events := by
  refine List.mem_append.trans (or_iff_right ?_)
  rw [Step.openings]
  cases step.configures? session with
  | none => exact List.not_mem_nil
  | some argument => exact found_notMem_openedBy _

/-- A look-up gives a range that was found before exactly if its key is a recent one. -/
theorem Remembers.found_before_iff (remembers : session.Remembers events) {key : CacheKey}
    {found : StampedRange} (finds : ((Session.lookUp key.options key.text).run.run session).1 =
      .ok found) :
    (∃ other earlier, .found other earlier ∈ events ∧ earlier.stamp = found.stamp) ↔
      Recent (Event.capacity events) key (Event.keys events) := by
  cases search : session.memory.use? key with
  | some entry =>
      obtain ⟨remembered, used⟩ := entry
      rw [run_lookUp_of_hit search] at finds
      cases finds
      rw [remembers.memory] at search
      have known : (Event.cache events).use? key ≠ none := by simp [search]
      have recent := not_imp_comm.mp Event.use?_cache_eq_none_iff.mpr known
      have before := Event.mem_of_mem_cache (Event.use?_cache search).1
      exact iff_of_true ⟨key, found, before, rfl⟩ recent
  | none =>
      cases read : Range.parseRecorded key.options key.text with
      | error fault =>
          rw [run_lookUp_of_unread search read] at finds
          cases finds
      | ok result =>
          rw [run_lookUp_of_miss search read] at finds
          cases finds
          rw [remembers.memory] at search
          -- What is read anew has the next stamp, which no event has yet.
          refine iff_of_false ?_ (Event.use?_cache_eq_none_iff.mp search)
          rintro ⟨other, earlier, before, same⟩
          exact absurd same (Nat.ne_of_lt (remembers.earlier other earlier before))

end Steps

theorem remembers_after (past : List Step) : (after past).Remembers (events past) := by
  induction past with
  | nil => exact remembers_initial
  | cons step past ih => exact ih.perform step

/-- A session keeps at most as many ranges as its cache was started for.  A look-up gives a
range that was found before exactly if its key was found since the cache was started and
fewer other keys were found after that than the cache keeps.  A look-up that fails leaves the
memory as it was when the options had been settled, and a step without a look-up leaves it as
it was unless it starts a cache. -/
theorem remembers_latest (past : List Step) :
    (∀ cache, (after past).cache = some cache →
      (cache.entries.map Prod.fst).Nodup ∧
        cache.entries.length ≤ Event.capacity (events past)) ∧
      ∀ step : Step,
        (∀ key reached, step.lookUp? (after past) = some (key, reached) →
          (∃ finish : Range → Except Fault Answer, step.perform (after past) =
              (lookUp key.options key.text >>= fun found =>
                lift (finish found.range)).run.run reached) ∧
            (step.openings (after past) = [] → reached.memory = (after past).memory) ∧
            (∀ found, ((lookUp key.options key.text).run.run reached).1 = .ok found →
              ((∃ other earlier, .found other earlier ∈ events past ∧
                  earlier.stamp = found.stamp) ↔
                Recent (Event.capacity (eventsBefore step past)) key
                  (Event.keys (eventsBefore step past)))) ∧
            ∀ fault, ((lookUp key.options key.text).run.run reached).1 = .error fault →
              (after (step :: past)).memory = reached.memory) ∧
          (step.lookUp? (after past) = none → step.openings (after past) = [] →
            (after (step :: past)).memory = (after past).memory) := by
  have remembers := remembers_after past
  constructor
  · intro cache present
    have same : cache = Event.cache (events past) := by
      rw [← remembers.memory, memory, present]
      rfl
    rw [same]
    exact ⟨Event.nodup_keys_cache, List.length_take_le _ _⟩
  intro step
  have next := remembers_after (step :: past)
  constructor
  · intro key reached looks
    have settled : reached.Remembers (eventsBefore step past) := remembers.reached looks
    refine ⟨perform_of_lookUp? looks, fun kept => ?_, fun found finds => ?_, fun fault fails => ?_⟩
    · rw [settled.memory, remembers.memory, eventsBefore, kept]
      rfl
    · rw [← settled.found_before_iff finds]
      simp only [eventsBefore, found_mem_openings_append_iff]
    · rw [next.memory, settled.memory, events, findings_of_lookUp? looks, fails]
      rfl
  · intro silent kept
    rw [next.memory, remembers.memory, events, findings_of_none silent, kept]
    rfl

/-- The settings let one range be remembered. -/
def ofOne : List Step :=
  [⟨bare, .configure (some ⟨false, 1⟩)⟩]

/-- A text is read under the settings. -/
def reading (text : String) : Step :=
  ⟨bare, .parse none (.text text)⟩

/-- What the text `1` is read as. -/
def ones : Range :=
  ⟨[Group.between {} (.release 1 0 0) (.release 2 0 0)]⟩

/-- A text that is read twice gives the same range, unless another is read in between. -/
theorem remembers_latest_of_one :
    (((lookUp {} "1").run.run (after (reading "1" :: ofOne))).1 = .ok ⟨0, ones⟩ ∧
      ∃ other earlier, .found other earlier ∈ events (reading "1" :: ofOne) ∧
        earlier.stamp = 0) ∧
    ((lookUp {} "1").run.run (after (reading "2" :: reading "1" :: ofOne))).1 = .ok ⟨2, ones⟩ ∧
      ¬∃ other earlier, .found other earlier ∈ events (reading "2" :: reading "1" :: ofOne) ∧
        earlier.stamp = 2 := by
  constructor
  · obtain ⟨-, -, twice, -⟩ := ((remembers_latest (reading "1" :: ofOne)).2 (reading "1")).1
      ⟨"1", {}⟩ (after (reading "1" :: ofOne)) rfl
    have keys : Event.keys (eventsBefore (reading "1") (reading "1" :: ofOne)) = [⟨"1", {}⟩] := rfl
    refine ⟨rfl, (twice ⟨0, ones⟩ rfl).mpr ?_⟩
    rw [keys]
    decide
  · obtain ⟨-, -, between, -⟩ := ((remembers_latest (reading "2" :: reading "1" :: ofOne)).2
      (reading "1")).1 ⟨"1", {}⟩ (after (reading "2" :: reading "1" :: ofOne)) rfl
    have keys : Event.keys (eventsBefore (reading "1") (reading "2" :: reading "1" :: ofOne)) =
        [⟨"2", {}⟩, ⟨"1", {}⟩] := rfl
    refine ⟨rfl, (between ⟨2, ones⟩ rfl).not.mpr ?_⟩
    rw [keys]
    decide

end Session

end VersionRange
