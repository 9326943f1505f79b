import VersionRange.Session

/-!
# Requests to a session

A history is a list of requests, each made in surroundings of its own because files and
variables may change from one request to the next.  What a request should be answered is
said here without a cache and without state: the settings in force are read off the
history, and every range text is read anew.
-/

namespace VersionRange

namespace Session

/-- Where a question takes its range from: a range, or a text to be read. -/
inductive Source
  | given (range : Range)
  | text (text : String)

inductive Question
  | parse (text : String)
  | satisfies (version : Value) (source : Source)
  | filter (versions : Value) (source : Source)
  | max (versions : Value) (source : Source)

inductive Call
  | configure (settings : Option Settings)
  | getSettings
  | ask (options : Option ParseOptions) (question : Question)

structure Request where
  world : World
  call : Call

inductive Answer
  | settings (settings : Settings)
  | range (range : Range)
  | verdict (verdict : Bool)
  | versions (versions : List Version)
  | best (best : Option Version)

def Source.toRangeSource : Source → RangeSource
  | given range => .given range
  | .text words => .written (.text words)

def Question.pose (world : World) (options : Option ParseOptions) : Question → InSession Answer
  | parse text => do
    return .range (← parseRange world options (.text text)).range
  | satisfies version source => do
    return .verdict (← Session.satisfies world options version source.toRangeSource)
  | filter versions source => do
    return .versions (← filterSatisfying world options versions source.toRangeSource)
  | max versions source => do
    return .best (← maxSatisfying world options versions source.toRangeSource)

def Call.make (world : World) : Call → InSession Answer
  | configure settings => do return .settings (← Session.configure world settings)
  | getSettings => do return .settings (← currentSettings world)
  | ask options question => question.pose world options

/-- The answer to a request, and the session after it. -/
def Request.perform (request : Request) (session : Session) : Except Fault Answer × Session :=
  (request.call.make request.world).run.run session

/-- The session after the history. -/
def replay (history : List Request) : Session :=
  history.foldl (fun session request => (request.perform session).2) initial

theorem replay_append (history later : List Request) :
    replay (history ++ later) =
      later.foldl (fun session request => (request.perform session).2) (replay history) :=
  List.foldl_append

theorem replay_append_singleton (history : List Request) (request : Request) :
    replay (history ++ [request]) = (request.perform (replay history)).2 :=
  replay_append history [request]

/-- The settings that a request configures, if it does so with success. -/
def Request.configured? (request : Request) : Option Settings :=
  match request.call with
  | .configure (some settings) => some settings
  | .configure none => (Settings.load none request.world).toOption
  | _ => none

def Question.source : Question → Source
  | parse text => .text text
  | satisfies _ source | filter _ source | max _ source => source

/-- The settings that are loaded for a source, for want of options. -/
def Source.loaded? (world : World) (options : Option ParseOptions) : Source → Option Settings
  | given _ => none
  | text _ => if options.isSome then none else (Settings.load none world).toOption

/-- The settings that a request loads if there are none, and does so with success. -/
def Request.loaded? (request : Request) : Option Settings :=
  match request.call with
  | .configure _ => none
  | .getSettings => (Settings.load none request.world).toOption
  | .ask options question => question.source.loaded? request.world options

/-- The settings that were configured last, else those that were loaded first. -/
def inForce (history : List Request) : Option Settings :=
  (history.reverse.findSome? Request.configured?).or (history.findSome? Request.loaded?)

/-- The settings that a request installs where others are in force, or none are. -/
def Request.installed? (inForce : Option Settings) (request : Request) : Option Settings :=
  request.configured?.or (if inForce.isSome then none else request.loaded?)

/-- Every cache that is started at a request of the history has a size that the cache
accepts. -/
def Fits (history : List Request) : Prop :=
  ∀ before request, before ++ [request] <+: history →
    ∀ settings, request.installed? (inForce before) = some settings →
      settings.cacheSize ≤ cacheSizeLimit

theorem fits_nil : Fits [] := by
  intro before request beginning
  simp at beginning

theorem fits_append_singleton_iff {history : List Request} {request : Request} :
    Fits (history ++ [request]) ↔
      Fits history ∧ ∀ settings, request.installed? (inForce history) = some settings →
        settings.cacheSize ≤ cacheSizeLimit := by
  constructor
  · intro fits
    refine ⟨fun before earlier beginning => ?_, fits history request (List.prefix_refl _)⟩
    exact fits before earlier (beginning.trans (List.prefix_append history [request]))
  · rintro ⟨fits, last⟩ before earlier beginning
    rcases List.prefix_concat_iff.mp beginning with whole | within
    · obtain ⟨rfl, same⟩ := List.append_inj' whole rfl
      obtain rfl := List.singleton_inj.mp same
      exact last
    · exact fits before earlier within

theorem inForce_append_singleton (history : List Request) (request : Request) :
    inForce (history ++ [request]) =
      request.configured?.or ((inForce history).or request.loaded?) := by
  simp only [inForce, List.reverse_append, List.reverse_singleton, List.singleton_append,
    List.findSome?_append, List.findSome?_cons, List.findSome?_nil]
  cases request.configured? <;> cases request.loaded? <;> simp

/-- The answer once the range is known. -/
def Question.finish : Question → Range → Except Fault Answer
  | parse _, range => .ok (.range range)
  | satisfies version _, range => do
    return .verdict (range.includes (← versionOf version))
  | filter versions _, range => do
    let candidates ← (← versions.members).mapM versionOf
    return .versions (candidates.filter range.includes)
  | max versions _, range => do
    let candidates ← (← versions.members).mapM versionOf
    return .best (Version.highest? (candidates.filter range.includes))

/-- The settings in force, which are loaded if there are none. -/
def settingsFor (inForce : Option Settings) (world : World) : Except Fault Settings :=
  match inForce with
  | some settings => .ok settings
  | none => Settings.load none world

/-- The given options, else those of the settings in force. -/
def optionsFor (inForce : Option Settings) (world : World) :
    Option ParseOptions → Except Fault ParseOptions
  | some options => .ok options
  | none => (settingsFor inForce world).map Settings.parseOptions

/-- The range of a source, where a text is read anew. -/
def Source.read (inForce : Option Settings) (world : World) (options : Option ParseOptions) :
    Source → Except Fault Range
  | given range => .ok range
  | .text words => do Range.parse (← optionsFor inForce world options) words

def Request.expected (inForce : Option Settings) (request : Request) : Except Fault Answer :=
  match request.call with
  | .configure (some settings) => .ok (.settings settings)
  | .configure none => (Settings.load none request.world).map .settings
  | .getSettings => (settingsFor inForce request.world).map .settings
  | .ask options question =>
    question.source.read inForce request.world options >>= question.finish

/-- The call is a question that has its options or its range with it. -/
def Call.SelfContained : Call → Prop
  | ask options question => options.isSome ∨ ∃ range, question.source = .given range
  | _ => False

end Session

end VersionRange
