import Mathlib.Data.List.TakeWhile
import VersionRange.CommandLine.Arguments
import VersionRange.Proofs.Fallible

/-!
# The flag for prereleases

The flag is accepted in front of the command and behind it.  Options and positional arguments
are taken in turn, and no turn loses the flag: it has been taken, or it still stands among
the words that are left.  When all words are taken, the flag has been taken exactly if it was
given.
-/

namespace VersionRange.CommandLine

open Fallible

variable {σ : Type} {release : Release}

/-- The option that includes prereleases. -/
def CommandOption.isFlag (option : CommandOption σ) : Bool :=
  option.names.contains "--include-prerelease"

/-- Taking the option tells a part of the state whether it is the flag. -/
structure CommandOption.Records (option : CommandOption σ) (get : σ → Bool) : Prop where
  names : option.isFlag = true → option.names = ["--include-prerelease"]
  take : ∀ given state next, option.take given state = .ok next →
    get next = (get state || option.isFlag)

/-- A word that stands for the flag. -/
def Mark.isFlag : Mark σ → Bool
  | .option own _ _ => own.isFlag
  | _ => false

/-- Options in a row, each with its argument. -/
inductive OptionsOnly : List (Marked σ) → Prop
  | nil : OptionsOnly []
  | alone {word name : String} {option : CommandOption σ} {given : Option String}
      {rest : List (Marked σ)} (complete : option.takesArgument = true → given ≠ none)
      (others : OptionsOnly rest) : OptionsOnly ((word, .option option name given) :: rest)
  | withArgument {word name argument : String} {option : CommandOption σ}
      {rest : List (Marked σ)} (asks : option.takesArgument = true) (others : OptionsOnly rest) :
      OptionsOnly ((word, .option option name none) :: (argument, .argument) :: rest)

/-- The words are options of the program, a command, and the words behind it. -/
structure Split (release : Release) (words : List String) (front : List (Marked Arguments))
    (name : String) (behind : List String) : Prop where
  marked : ∃ marks, (programGrammar release).marked words =
    .ok (front ++ (name, .argument) :: marks) ∧ marks.map Prod.fst = behind
  options : OptionsOnly front

/-- The flag is given in front of the command or behind it. -/
inductive FlagGiven (release : Release) (words : List String) : Prop
  | before {front : List (Marked Arguments)} {name : String} {behind : List String}
      (split : Split release words front name behind) (flag : front.any (·.2.isFlag) = true) :
      FlagGiven release words
  | after {front : List (Marked Arguments)} {name : String} {behind : List String}
      {grammar : Grammar CommandArguments} {build : CommandArguments → Command}
      {marks : List (Marked CommandArguments)} (split : Split release words front name behind)
      (command : (commands release).lookup name = some (grammar, build))
      (marked : grammar.marked behind = .ok marks) (flag : marks.any (·.2.isFlag) = true) :
      FlagGiven release words

namespace Grammar

/-- A word whose mark is one that the grammar gives. -/
def Fits (grammar : Grammar σ) : Marked σ → Prop
  | (word, .dashes) => word = "--"
  | (_, .option option _ _) => option ∈ grammar.options
  | _ => True

variable {grammar : Grammar σ}

theorem mem_namedOptions {name : String} {option : CommandOption σ} :
    (name, option) ∈ grammar.namedOptions ↔ option ∈ grammar.options ∧ name ∈ option.names := by
  simp [namedOptions]

theorem of_lookup_namedOptions {name : String} {option : CommandOption σ}
    (found : grammar.namedOptions.lookup name = some option) :
    option ∈ grammar.options ∧ name ∈ option.names :=
  have ⟨before, _, split, _⟩ := List.lookup_eq_some_iff.mp found
  mem_namedOptions.mp (split ▸ List.mem_append_right before List.mem_cons_self)

theorem exists_option_of_mem_candidates {word : List Char} {name : String} {mark : Mark σ}
    (member : (name, mark) ∈ grammar.candidates word) :
    ∃ own given, mark = .option own name given ∧ own ∈ grammar.options := by
  unfold candidates at member
  split at member
  · obtain ⟨⟨_, own⟩, among, same⟩ := List.mem_map.mp member
    obtain ⟨rfl, rfl⟩ := Prod.mk.inj same
    exact ⟨own, _, rfl, (mem_namedOptions.mp (List.mem_filter.mp among).1).1⟩
  · obtain ⟨⟨_, own⟩, among, same⟩ := List.mem_filterMap.mp member
    have isOption := (mem_namedOptions.mp among).1
    dsimp only at same
    split at same
    · obtain ⟨rfl, rfl⟩ := Prod.mk.inj (Option.some.inj same)
      exact ⟨own, _, rfl, isOption⟩
    · split at same
      · obtain ⟨rfl, rfl⟩ := Prod.mk.inj (Option.some.inj same)
        exact ⟨own, _, rfl, isOption⟩
      · cases same

theorem fits_markOf {word : String} {mark : Mark σ} (marked : grammar.markOf word = .ok mark) :
    grammar.Fits (word, mark) := by
  unfold markOf at marked
  extract_lets chars at marked
  split at marked
  · cases marked
    trivial
  · split at marked
    next option found =>
      cases marked
      exact (of_lookup_namedOptions found).1
    · split at marked
      · cases marked
        trivial
      · split at marked
        next front given =>
        split at marked
        next given option found =>
          cases marked
          exact (of_lookup_namedOptions found).1
        · split at marked
          next candidate mark only =>
            cases marked
            have member : (candidate, mark) ∈ grammar.candidates chars := by simp [only]
            obtain ⟨own, given, rfl, isOption⟩ := exists_option_of_mem_candidates member
            exact isOption
          · cases marked
            split <;> trivial
          · cases marked

theorem fits_of_marked {words : List String} {marks : List (Marked σ)}
    (marked : grammar.marked words = .ok marks) : ∀ mark ∈ marks, grammar.Fits mark := by
  induction words generalizing marks with
  | nil =>
      cases marked
      simp
  | cons word words ih =>
      unfold Grammar.marked at marked
      split at marked
      next dashes =>
        cases marked
        refine List.forall_mem_cons.mpr ⟨dashes, fun mark member => ?_⟩
        obtain ⟨_, -, rfl⟩ := List.mem_map.mp member
        trivial
      · obtain ⟨mark, first, rest⟩ := bind_eq_ok_iff.mp marked
        obtain ⟨others, behind, whole⟩ := bind_eq_ok_iff.mp rest
        cases whole
        exact List.forall_mem_cons.mpr ⟨fits_markOf first, ih behind⟩

/-- A part of the state tells whether the flag has been taken. -/
def Records (grammar : Grammar σ) (get : σ → Bool) : Prop :=
  ∀ option ∈ grammar.options, option.Records get

variable {get : σ → Bool} {option : CommandOption σ} {state next : σ}

theorem get_takeOption (records : grammar.Records get) (isOption : option ∈ grammar.options)
    {argument : Option String} (taken : grammar.takeOption option argument state = .ok next) :
    get next = (get state || option.isFlag) := by
  unfold takeOption at taken
  split at taken
  · cases taken
  · exact (records option isOption).take argument state next (mapError_eq_ok_iff.mp taken)

/-- The options that are put together behind one dash have short names, so that none but the
first can be the flag. -/
theorem others_of_cluster (records : grammar.Records get) {given : List Char}
    {together : List (CommandOption σ)} {left : Option String}
    (clustered : grammar.cluster option given = .ok (together, left)) :
    ∃ others, together = option :: others ∧
      ∀ other ∈ others, other ∈ grammar.options ∧ other.isFlag = false := by
  induction given generalizing option together left with
  | nil =>
      cases clustered
      exact ⟨[], rfl, by simp⟩
  | cons c given ih =>
      unfold cluster at clustered
      split at clustered
      next following found =>
        obtain ⟨⟨more, rest⟩, behind, whole⟩ := bind_eq_ok_iff.mp clustered
        cases whole
        obtain ⟨others, rfl, each⟩ := ih behind
        obtain ⟨isNamed, -⟩ := Option.filter_eq_some_iff.mp found
        obtain ⟨isOption, name⟩ := of_lookup_namedOptions isNamed
        have notFlag : following.isFlag = false := by
          rw [← Bool.not_eq_true]
          intro isFlag
          rw [(records following isOption).names isFlag, List.mem_singleton] at name
          have lengths := congrArg (fun name => name.toList.length) name
          simp at lengths
        exact ⟨_, rfl, List.forall_mem_cons.mpr ⟨⟨isOption, notFlag⟩, each⟩⟩
      · -- only a word that is left ends the options without a refusal
        split at clustered
        · cases clustered
        · cases clustered
        · cases clustered
        · cases clustered
          exact ⟨[], rfl, by simp⟩

theorem get_foldlM (records : grammar.Records get) {others : List (CommandOption σ)}
    (each : ∀ other ∈ others, other ∈ grammar.options ∧ other.isFlag = false)
    (taken : others.foldlM (fun state option => grammar.takeOption option none state) state =
      .ok next) : get next = get state := by
  induction others generalizing state with
  | nil =>
      cases taken
      rfl
  | cons other others ih =>
      obtain ⟨⟨isOption, notFlag⟩, each⟩ := List.forall_mem_cons.mp each
      obtain ⟨between, first, rest⟩ := bind_eq_ok_iff.mp taken
      rw [ih each rest, get_takeOption records isOption first, notFlag, Bool.or_false]

/-- An option is taken with its argument, which may be the word behind it. -/
theorem get_takeKnown (records : grammar.Records get) (isOption : option ∈ grammar.options)
    {word name : String} {given left : Option String} {words rest : List (Marked σ)}
    (taken : grammar.takeKnown option word name given words state = .ok (rest, next, left)) :
    get next = (get state || option.isFlag) ∧
      ((rest = words ∧ (option.takesArgument = true → given ≠ none)) ∨
        option.takesArgument = true ∧ given = none ∧
          ∃ argument, words = (argument, .argument) :: rest) := by
  unfold takeKnown at taken
  split at taken
  · split at taken
    next asks =>
      split at taken
      next argument behind =>
        obtain ⟨found, first, whole⟩ := bind_eq_ok_iff.mp taken
        cases whole
        exact ⟨get_takeOption records isOption first, .inr ⟨asks, rfl, argument, rfl⟩⟩
      · cases taken
    next silent =>
      obtain ⟨found, first, whole⟩ := bind_eq_ok_iff.mp taken
      cases whole
      exact ⟨get_takeOption records isOption first, .inl ⟨rfl, fun asks => absurd asks silent⟩⟩
  next inWord =>
    have complete : option.takesArgument = true → some inWord ≠ none := fun _ => by simp
    split at taken
    · obtain ⟨found, first, whole⟩ := bind_eq_ok_iff.mp taken
      cases whole
      exact ⟨get_takeOption records isOption first, .inl ⟨rfl, complete⟩⟩
    · split at taken
      · cases taken
      · obtain ⟨⟨together, kept⟩, clustered, rest⟩ := bind_eq_ok_iff.mp taken
        obtain ⟨found, all, whole⟩ := bind_eq_ok_iff.mp rest
        cases whole
        obtain ⟨others, rfl, each⟩ := others_of_cluster records clustered
        obtain ⟨between, first, later⟩ := bind_eq_ok_iff.mp all
        rw [get_foldlM records each later]
        exact ⟨get_takeOption records isOption first, .inl ⟨rfl, complete⟩⟩

/-- What stands at the front is taken.  Either a word is left that nothing takes, or options
with their arguments were all that stood there. -/
theorem takeFront_cases (records : grammar.Records get) {progress after : Progress σ}
    (fits : ∀ mark ∈ progress.words, grammar.Fits mark)
    (taken : grammar.takeFront progress = .ok after) :
    after.positionals = progress.positionals ∧
      ∃ front, progress.words = front ++ after.words ∧
        get after.state = (get progress.state || front.any (·.2.isFlag)) ∧
          ((∃ word, after.extras = progress.extras ++ [word]) ∨
            OptionsOnly front ∧ after.extras = progress.extras) := by
  unfold takeFront at taken
  split at taken
  next word rest atFront =>
    cases taken
    exact ⟨rfl, [(word, .unknownOption)], atFront, by simp [Mark.isFlag], .inl ⟨word, rfl⟩⟩
  next word own name given rest atFront =>
    have isOption : own ∈ grammar.options := fits (word, .option own name given) (by simp [atFront])
    obtain ⟨⟨behind, found, left⟩, known, whole⟩ := bind_eq_ok_iff.mp taken
    cases whole
    obtain ⟨flag, others⟩ := get_takeKnown records isOption known
    have ends (front : List (Marked σ)) (only : OptionsOnly front) :
        (∃ word, progress.extras ++ left.toList = progress.extras ++ [word]) ∨
          OptionsOnly front ∧ progress.extras ++ left.toList = progress.extras := by
      cases left with
      | none => exact .inr ⟨only, List.append_nil _⟩
      | some word => exact .inl ⟨word, rfl⟩
    rcases others with ⟨rfl, complete⟩ | ⟨asks, rfl, argument, rfl⟩
    · refine ⟨rfl, [(word, .option own name given)], atFront, ?_, ends _ (.alone complete .nil)⟩
      simpa [Mark.isFlag] using flag
    · refine ⟨rfl, [(word, .option own name none), (argument, .argument)], atFront, ?_,
        ends _ (.withArgument asks .nil)⟩
      simpa [Mark.isFlag] using flag
  · cases taken
    exact ⟨rfl, [], rfl, by simp, .inr ⟨.nil, rfl⟩⟩

theorem Mark.isFlag_of_not_isOption {mark : Mark σ} (noOption : mark.isOption = false) :
    mark.isFlag = false := by
  cases mark with
  | option => cases noOption
  | _ => rfl

theorem takeWhile_append_drop {α : Type} (p : α → Bool) (list : List α) :
    list.takeWhile p ++ list.drop (list.takeWhile p).length = list :=
  List.prefix_iff_eq_append.mp (List.takeWhile_prefix p)

theorem take_drop_around {α : Type} {words front more behind : List α} {word : α}
    (whole : front ++ word :: (more ++ behind) = words) :
    words.take (front.length + 1 + more.length) = front ++ word :: more ∧
      words.drop (front.length + 1 + more.length) = behind := by
  have count : (front ++ word :: more).length = front.length + 1 + more.length := by
    rw [List.length_append, List.length_cons, Nat.add_right_comm, Nat.add_assoc]
  have whole : words = (front ++ word :: more) ++ behind := by
    rw [← whole, List.append_assoc, List.cons_append]
  rw [whole]
  exact ⟨List.take_left' count, List.drop_left' count⟩

/-- What a positional argument takes: a word behind dashes, and more words behind it. -/
theorem exists_of_reach {arity : Arity} {words : List (Marked σ)} {count : Nat}
    (reached : reach arity words = some count) :
    ∃ dashes argument more, words.take count = dashes ++ (argument, .argument) :: more ∧
      (∀ mark ∈ dashes, mark.2 = .dashes) ∧ (arity = .rest → words.drop count = []) ∧
        (arity ≠ .rest → ∀ mark ∈ more, mark.2.isOption = false) := by
  unfold reach at reached
  extract_lets isDashes isArgument front at reached
  have dashed {list : List (Marked σ)} {mark : Marked σ} (member : mark ∈ list.takeWhile isDashes) :
      mark.2 = .dashes := by
    have isDash : isDashes mark = true := List.mem_takeWhile_imp member
    obtain ⟨word, mark⟩ := mark
    cases mark with
    | dashes => rfl
    | _ => cases isDash
  have whole : words.takeWhile isDashes ++ words.drop front = words :=
    takeWhile_append_drop isDashes words
  split at reached
  · cases reached
  next first rest behind =>
    rw [behind] at whole
    split at reached
    · cases reached
    next isWord =>
      obtain ⟨word, mark⟩ := first
      have isWord : mark = .argument := by
        cases mark with
        | argument => rfl
        | _ => exact absurd rfl isWord
      subst isWord
      cases reached
      cases arity with
      | one =>
          rw [← takeWhile_append_drop isDashes rest] at whole
          refine ⟨_, word, _, (take_drop_around whole).1, fun _ => dashed, by simp,
            fun _ mark member => ?_⟩
          rw [dashed member]
          rfl
      | oneOrMore =>
          rw [← takeWhile_append_drop (fun mark => !mark.2.isOption) rest] at whole
          refine ⟨_, word, _, (take_drop_around whole).1, fun _ => dashed, by simp,
            fun _ mark member => ?_⟩
          simpa using List.mem_takeWhile_imp member
      | rest =>
          rw [← List.append_nil rest] at whole
          obtain ⟨all, none⟩ := take_drop_around whole
          exact ⟨_, word, _, all, fun _ => dashed, fun _ => none, fun other => absurd rfl other⟩

/-- Positional arguments that do not take options leave the flag where it is. -/
structure Keeps (positional : Positional σ) (get : σ → Bool) : Prop where
  arity : positional.arity ≠ .rest
  take : ∀ values state next, positional.take values state = .ok next → get next = get state

theorem takePositionals_keeps {positionals others : List (Positional σ)}
    {words rest : List (Marked σ)} (keeps : ∀ positional ∈ positionals, Keeps positional get)
    (taken : takePositionals positionals words state = .ok (others, rest, next)) :
    get next = get state ∧ (∀ positional ∈ others, positional ∈ positionals) ∧
      ∃ front, words = front ++ rest ∧ front.any (·.2.isFlag) = false := by
  induction positionals generalizing words state with
  | nil =>
      cases taken
      exact ⟨rfl, by simp, [], rfl, rfl⟩
  | cons positional positionals ih =>
      obtain ⟨first, later⟩ := List.forall_mem_cons.mp keeps
      unfold takePositionals at taken
      split at taken
      · cases taken
        exact ⟨rfl, fun _ member => member, [], rfl, rfl⟩
      next count reached =>
        obtain ⟨between, one, more⟩ := bind_eq_ok_iff.mp taken
        obtain ⟨same, among, front, split, noFlag⟩ := ih later more
        refine ⟨same.trans (first.take _ _ _ one), fun own member =>
          List.mem_cons_of_mem _ (among own member), words.take count ++ front, ?_, ?_⟩
        · rw [List.append_assoc, ← split, List.take_append_drop]
        · obtain ⟨dashes, argument, own, words, areDashes, -, noOptions⟩ :=
            exists_of_reach reached
          have noDash : dashes.any (·.2.isFlag) = false :=
            List.any_eq_false.mpr fun mark member => by simp [areDashes mark member, Mark.isFlag]
          have noOwn : own.any (·.2.isFlag) = false :=
            List.any_eq_false.mpr fun mark member => by
              simp [Mark.isFlag_of_not_isOption (noOptions first.arity mark member)]
          rw [words, List.any_append, List.any_append, List.any_cons, noDash, noOwn, noFlag]
          rfl

/-- The flag has been taken, or it still stands among the words that are left. -/
def Progress.flagged (progress : Progress σ) (get : σ → Bool) : Bool :=
  get progress.state || progress.words.any (·.2.isFlag)

theorem takePositionals_eq_ok_iff {progress after : Progress σ} :
    progress.takePositionals = .ok after ↔
      takePositionals progress.positionals progress.words progress.state =
        .ok (after.positionals, after.words, after.state) ∧ after.extras = progress.extras := by
  unfold Progress.takePositionals
  rw [bind_eq_ok_iff]
  constructor
  · rintro ⟨⟨positionals, words, state⟩, taken, whole⟩
    cases whole
    exact ⟨taken, rfl⟩
  · rintro ⟨taken, same⟩
    exact ⟨_, taken, by rw [← same]; rfl⟩

theorem interleave_succ (steps : Nat) (progress : Progress σ) :
    grammar.interleave (steps + 1) progress =
      if progress.words.any (·.2.isOption) then
        (if progress.words.head?.any (·.2.isOption) then .ok progress
          else progress.takePositionals) >>= fun taken =>
        if taken.words.length < progress.words.length then grammar.interleave steps taken
        else
          grammar.takeFront { taken with
            words := taken.words.dropWhile fun word => !word.2.isOption
            extras := taken.extras ++
              (taken.words.takeWhile fun word => !word.2.isOption).map Prod.fst } >>=
          grammar.interleave steps
      else .ok progress := by
  rw [interleave]
  cases progress.words.any fun word => word.2.isOption with
  | false => rfl
  | true => cases progress.words.head?.any fun word => word.2.isOption <;> rfl

/-- What holds of the words that are left. -/
structure Ready (grammar : Grammar σ) (get : σ → Bool) (progress : Progress σ) : Prop where
  fits : ∀ mark ∈ progress.words, grammar.Fits mark
  keeps : ∀ positional ∈ progress.positionals, Keeps positional get

theorem flagged_takePositionals {progress after : Progress σ}
    (ready : grammar.Ready get progress) (taken : progress.takePositionals = .ok after) :
    grammar.Ready get after ∧ after.flagged get = progress.flagged get := by
  obtain ⟨taken, -⟩ := takePositionals_eq_ok_iff.mp taken
  obtain ⟨same, among, front, split, noFlag⟩ := takePositionals_keeps ready.keeps taken
  refine ⟨⟨fun mark member => ready.fits mark (split ▸ List.mem_append_right front member),
    fun positional member => ready.keeps positional (among positional member)⟩, ?_⟩
  rw [Progress.flagged, Progress.flagged, same, split, List.any_append, noFlag, Bool.false_or]

theorem flagged_takeFront (records : grammar.Records get) {progress after : Progress σ}
    (ready : grammar.Ready get progress) (taken : grammar.takeFront progress = .ok after) :
    grammar.Ready get after ∧ after.flagged get = progress.flagged get := by
  obtain ⟨positionals, front, words, state, -⟩ := takeFront_cases records ready.fits taken
  refine ⟨⟨fun mark member => ready.fits mark (words ▸ List.mem_append_right front member),
    positionals ▸ ready.keeps⟩, ?_⟩
  rw [Progress.flagged, Progress.flagged, state, words, List.any_append, Bool.or_assoc]

theorem flagged_skip {progress : Progress σ} (ready : grammar.Ready get progress)
    (extras : List String) :
    let left := { progress with
      words := progress.words.dropWhile fun word => !word.2.isOption
      extras := extras }
    grammar.Ready get left ∧ left.flagged get = progress.flagged get := by
  have split := List.takeWhile_append_dropWhile (p := fun word => !word.2.isOption)
    (l := progress.words)
  have noFlag : (progress.words.takeWhile fun word => !word.2.isOption).any (·.2.isFlag) =
      false := by
    refine List.any_eq_false.mpr fun mark member => ?_
    have noOption : mark.2.isOption = false := by simpa using List.mem_takeWhile_imp member
    simp [Mark.isFlag_of_not_isOption noOption]
  refine ⟨⟨fun mark member => ready.fits mark
    ((List.dropWhile_sublist _).subset member), ready.keeps⟩, ?_⟩
  rw [Progress.flagged, Progress.flagged, ← split, List.any_append, noFlag, split,
    Bool.false_or]

/-- No turn loses the flag or makes it up. -/
theorem flagged_interleave (records : grammar.Records get) (steps : Nat)
    {progress after : Progress σ} (ready : grammar.Ready get progress)
    (taken : grammar.interleave steps progress = .ok after) :
    grammar.Ready get after ∧ after.flagged get = progress.flagged get := by
  induction steps generalizing progress with
  | zero =>
      cases taken
      exact ⟨ready, rfl⟩
  | succ steps ih =>
      rw [interleave_succ] at taken
      split at taken
      · obtain ⟨between, first, taken⟩ := bind_eq_ok_iff.mp taken
        have same : grammar.Ready get between ∧ between.flagged get = progress.flagged get := by
          split at first
          · cases first
            exact ⟨ready, rfl⟩
          · exact flagged_takePositionals ready first
        split at taken
        · obtain ⟨afterReady, afterSame⟩ := ih same.1 taken
          exact ⟨afterReady, afterSame.trans same.2⟩
        · obtain ⟨next, front, taken⟩ := bind_eq_ok_iff.mp taken
          obtain ⟨skipReady, skipSame⟩ := flagged_skip same.1 _
          obtain ⟨nextReady, nextSame⟩ := flagged_takeFront records skipReady front
          obtain ⟨afterReady, afterSame⟩ := ih nextReady taken
          exact ⟨afterReady, afterSame.trans (nextSame.trans (skipSame.trans same.2))⟩
      · cases taken
        exact ⟨ready, rfl⟩

/-- How all arguments of a program are taken. -/
theorem exists_of_readKnown {start : σ} {words extras : List String}
    (read : grammar.readKnown start words = .ok (state, extras)) :
    ∃ marks progress last, grammar.marked words = .ok marks ∧
      grammar.interleave (marks.length + 1) ⟨marks, grammar.positionals, start, []⟩ =
        .ok progress ∧ progress.takePositionals = .ok last ∧ last.positionals = [] ∧
          last.state = state ∧ last.extras ++ last.words.map Prod.fst = extras := by
  obtain ⟨marks, marked, read⟩ := bind_eq_ok_iff.mp read
  obtain ⟨progress, turns, read⟩ := bind_eq_ok_iff.mp read
  obtain ⟨last, positionals, read⟩ := bind_eq_ok_iff.mp read
  dsimp only at read
  split at read
  · cases read
  next none =>
    cases read
    exact ⟨marks, progress, last, marked, turns, positionals, by simpa using none, rfl, rfl⟩

/-- If all words are taken, the flag has been taken exactly if it was given. -/
theorem get_of_readKnown (records : grammar.Records get)
    (keeps : ∀ positional ∈ grammar.positionals, Keeps positional get) {start : σ}
    {words : List String} (read : grammar.readKnown start words = .ok (state, [])) :
    ∃ marks, grammar.marked words = .ok marks ∧
      get state = (get start || marks.any (·.2.isFlag)) := by
  obtain ⟨marks, progress, last, marked, turns, positionals, -, rfl, none⟩ :=
    exists_of_readKnown read
  obtain ⟨ready, same⟩ :=
    flagged_interleave records _ ⟨fits_of_marked marked, keeps⟩ turns
  have all := (flagged_takePositionals ready positionals).2.trans same
  have noWords : last.words = [] := by simpa using (List.append_eq_nil_iff.mp none).2
  rw [Progress.flagged, noWords, List.any_nil, Bool.or_false] at all
  exact ⟨marks, marked, all⟩

end Grammar

theorem records_other {option : CommandOption σ} {get : σ → Bool} (other : option.isFlag = false)
    (keeps : ∀ given state next, option.take given state = .ok next → get next = get state) :
    option.Records get where
  names isFlag := by
    rw [other] at isFlag
    cases isFlag
  take given state next taken := by
    rw [other, Bool.or_false]
    exact keeps given state next taken

theorem records_flag {change : σ → σ} {get : σ → Bool}
    (sets : ∀ state, get (change state) = true) :
    (flag ["--include-prerelease"] change).Records get where
  names _ := rfl
  take given state next taken := by
    cases taken
    have isFlag : (flag ["--include-prerelease"] change).isFlag = true := by
      rw [CommandOption.isFlag]
      exact List.contains_iff_mem.mpr List.mem_cons_self
    rw [sets, isFlag, Bool.or_true]

theorem records_helpOption (get : σ → Bool) : (helpOption : CommandOption σ).Records get := by
  refine records_other ?_ fun _ _ _ taken => ?_
  · show ["-h", "--help"].contains "--include-prerelease" = false
    decide
  · cases taken
    rfl

theorem records_installedOption :
    installedOption.Records CommandArguments.includePrerelease := by
  refine records_other (by decide) fun _ _ _ taken => ?_
  obtain ⟨given, -, whole⟩ := bind_eq_ok_iff.mp taken
  cases whole
  rfl

theorem records_programGrammar :
    (programGrammar release).Records Arguments.includePrerelease := by
  simp only [Grammar.Records, programGrammar, List.forall_mem_cons]
  refine ⟨records_helpOption _, records_other ?_ ?_, records_flag fun _ => rfl,
    records_other ?_ ?_, by simp⟩
  · decide
  · rintro _ _ _ ⟨⟩
    rfl
  · show ["-v", "--verbose"].contains "--include-prerelease" = false
    decide
  · rintro _ _ _ ⟨⟩
    rfl

theorem records_of_mem_commands {name : String} {grammar : Grammar CommandArguments}
    {build : CommandArguments → Command} (member : (name, grammar, build) ∈ commands release) :
    grammar.Records CommandArguments.includePrerelease ∧
      ∀ positional ∈ grammar.positionals,
        Grammar.Keeps positional CommandArguments.includePrerelease := by
  have ofSubject (name : String) :
      Grammar.Keeps (subject name) CommandArguments.includePrerelease := by
    refine ⟨by simp [subject], ?_⟩
    rintro _ _ _ ⟨⟩
    rfl
  have ofVersions : Grammar.Keeps versionsArgument CommandArguments.includePrerelease := by
    refine ⟨by simp [versionsArgument], ?_⟩
    rintro _ _ _ ⟨⟩
    rfl
  have ofFlag : commandPrerelease.Records CommandArguments.includePrerelease :=
    records_flag fun _ => rfl
  simp only [commands, List.mem_cons, Prod.mk.injEq, List.not_mem_nil, or_false] at member
  rcases member with ⟨-, rfl, -⟩ | ⟨-, rfl, -⟩
  · simp only [Grammar.Records, List.forall_mem_cons]
    exact ⟨⟨records_helpOption _, ofFlag, by simp⟩, ofSubject _, ofVersions, by simp⟩
  · simp only [Grammar.Records, List.forall_mem_cons]
    exact ⟨⟨records_helpOption _, ofFlag, records_installedOption, by simp⟩, ofSubject _, by simp⟩

theorem OptionsOnly.append {front more : List (Marked σ)} (first : OptionsOnly front)
    (others : OptionsOnly more) : OptionsOnly (front ++ more) := by
  induction first with
  | nil => exact others
  | alone complete _ ih => exact .alone complete ih
  | withArgument asks _ ih => exact .withArgument asks ih

/-- The command is the first argument that no option takes. -/
theorem OptionsOnly.unique {front front' behind behind' : List (Marked σ)} {name name' : String}
    (first : OptionsOnly front) (second : OptionsOnly front')
    (same : front ++ (name, .argument) :: behind = front' ++ (name', .argument) :: behind') :
    front = front' ∧ name = name' ∧ behind = behind' := by
  induction first generalizing front' with
  | nil =>
      cases second with
      | nil => simpa using same
      | alone | withArgument => simp at same
  | alone complete _ ih =>
      cases second with
      | nil => simp at same
      | alone _ others =>
          obtain ⟨⟨rfl, rfl, rfl, rfl⟩, later⟩ := by simpa using same
          obtain ⟨rfl, rest⟩ := ih others later
          exact ⟨rfl, rest⟩
      | withArgument asks others =>
          obtain ⟨⟨rfl, rfl, rfl, rfl⟩, -⟩ := by simpa using same
          exact absurd rfl (complete asks)
  | withArgument asks _ ih =>
      cases second with
      | nil => simp at same
      | alone complete others =>
          obtain ⟨⟨rfl, rfl, rfl, rfl⟩, -⟩ := by simpa using same
          exact absurd rfl (complete asks)
      | withArgument _ others =>
          obtain ⟨⟨rfl, rfl, rfl⟩, rfl, later⟩ := by simpa using same
          obtain ⟨rfl, rest⟩ := ih others later
          exact ⟨rfl, rest⟩

theorem exists_of_takeCommand {name : String} {behind : List String} {arguments after : Arguments}
    (taken : takeCommand release (name :: behind) arguments = .ok after) :
    ∃ grammar build found, (commands release).lookup name = some (grammar, build) ∧
      grammar.readKnown {} behind = .ok (found, after.extras) ∧
        after.includePrerelease = (arguments.includePrerelease || found.includePrerelease) := by
  unfold takeCommand at taken
  dsimp only [List.headD_cons, List.tail_cons] at taken
  split at taken
  · cases taken
  next grammar build known =>
    obtain ⟨⟨found, extras⟩, read, whole⟩ := bind_eq_ok_iff.mp taken
    cases whole
    exact ⟨grammar, build, found, known, read, rfl⟩

namespace Grammar

/-- The command is taken with all words behind it. -/
theorem command_at_front {progress last : Progress Arguments}
    (fits : ∀ mark ∈ progress.words, (programGrammar release).Fits mark)
    (waiting : progress.positionals = (programGrammar release).positionals)
    (taken : progress.takePositionals = .ok last) (noneLeft : last.positionals = []) :
    last.extras = progress.extras ∧ last.words = [] ∧
      ∃ name behind, progress.words = (name, .argument) :: behind ∧
        takeCommand release (name :: behind.map Prod.fst) progress.state = .ok last.state := by
  obtain ⟨taken, same⟩ := takePositionals_eq_ok_iff.mp taken
  rw [waiting, noneLeft] at taken
  unfold programGrammar takePositionals at taken
  dsimp only at taken
  split at taken
  · cases taken
  next count reached =>
    obtain ⟨state, command, rest⟩ := bind_eq_ok_iff.mp taken
    obtain ⟨rest, found⟩ := Prod.mk.inj (Prod.mk.inj (Except.ok.inj rest)).2
    obtain ⟨dashes, name, behind, words, areDashes, all, -⟩ := exists_of_reach reached
    have whole : progress.words = dashes ++ (name, .argument) :: behind := by
      rw [← List.take_append_drop count progress.words, all rfl, List.append_nil, words]
    rw [words, found] at command
    refine ⟨same, rest.symm.trans (all rfl), ?_⟩
    cases dashes with
    | nil => exact ⟨name, behind, whole, command⟩
    | cons dash dashes =>
        -- two dashes that stand alone are no command
        have isDashes : dash.1 = "--" := by
          have fits := fits dash (by simp [whole])
          obtain ⟨word, mark⟩ := dash
          obtain rfl : mark = .dashes := areDashes (word, mark) List.mem_cons_self
          exact fits
        obtain ⟨grammar, build, -, known, -⟩ := exists_of_takeCommand command
        rw [isDashes] at known
        cases known

theorem interleave_of_nil {grammar : Grammar σ} (steps : Nat) {progress : Progress σ}
    (none : progress.words = []) : grammar.interleave steps progress = .ok progress := by
  cases steps with
  | zero => rfl
  | succ steps =>
      rw [interleave_succ, none]
      rfl

theorem eq_or_done_of_takePositionals {progress after : Progress Arguments}
    (waiting : progress.positionals = (programGrammar release).positionals)
    (taken : progress.takePositionals = .ok after) :
    after = progress ∨ after.positionals = [] := by
  obtain ⟨parts, same⟩ := takePositionals_eq_ok_iff.mp taken
  rw [waiting] at parts
  unfold programGrammar takePositionals at parts
  split at parts
  · left
    obtain ⟨positionals, rest⟩ := Prod.mk.inj (Except.ok.inj parts)
    obtain ⟨words, state⟩ := Prod.mk.inj rest
    cases after
    cases progress
    simp_all [programGrammar]
  · right
    obtain ⟨found, -, rest⟩ := bind_eq_ok_iff.mp parts
    exact (Prod.mk.inj (Except.ok.inj rest)).1.symm

theorem takePositionals_of_done {progress after : Progress Arguments}
    (done : progress.positionals = []) (taken : progress.takePositionals = .ok after) :
    after.state = progress.state ∧ after.extras = progress.extras := by
  obtain ⟨parts, same⟩ := takePositionals_eq_ok_iff.mp taken
  rw [done] at parts
  exact ⟨(Prod.mk.inj (Prod.mk.inj (Except.ok.inj parts)).2).2.symm, same⟩

/-- The words that are left are options, a command, and the words behind it, of which the
command makes the arguments. -/
def Reaches (release : Release) (progress : Progress Arguments) (arguments : Arguments) : Prop :=
  ∃ front name behind state, progress.words = front ++ (name, .argument) :: behind ∧
    OptionsOnly front ∧
      state.includePrerelease =
        (progress.state.includePrerelease || front.any (·.2.isFlag)) ∧
        takeCommand release (name :: behind.map Prod.fst) state = .ok arguments

/-- Options in front of words that reach a command are passed over. -/
theorem Reaches.behind {progress next : Progress Arguments} {arguments : Arguments}
    {front : List (Marked Arguments)} (reaches : Reaches release next arguments)
    (only : OptionsOnly front) (words : progress.words = front ++ next.words)
    (flag : next.state.includePrerelease =
      (progress.state.includePrerelease || front.any (·.2.isFlag))) :
    Reaches release progress arguments := by
  obtain ⟨others, name, behind, state, rest, onlyOthers, later, command⟩ := reaches
  refine ⟨front ++ others, name, behind, state, ?_, only.append onlyOthers, ?_, command⟩
  · rw [words, rest, List.append_assoc]
  · rw [later, flag, List.any_append, Bool.or_assoc]

theorem reaches_of_takePositionals {progress last : Progress Arguments}
    (fits : ∀ mark ∈ progress.words, (programGrammar release).Fits mark)
    (waiting : progress.positionals = (programGrammar release).positionals)
    (taken : progress.takePositionals = .ok last) (noneLeft : last.positionals = [])
    (noExtras : last.extras = []) : progress.extras = [] ∧ Reaches release progress last.state := by
  obtain ⟨same, -, name, behind, words, command⟩ := command_at_front fits waiting taken noneLeft
  exact ⟨same.symm.trans noExtras, [], name, behind, progress.state, words, .nil, by simp, command⟩

/-- Options are taken from the front until the command is reached, which takes all the rest. -/
theorem reaches_of_interleave (steps : Nat) {progress between last : Progress Arguments}
    (fits : ∀ mark ∈ progress.words, (programGrammar release).Fits mark)
    (waiting : progress.positionals = (programGrammar release).positionals)
    (turns : (programGrammar release).interleave steps progress = .ok between)
    (taken : between.takePositionals = .ok last) (noneLeft : last.positionals = [])
    (noExtras : last.extras = []) :
    progress.extras = [] ∧ Reaches release progress last.state := by
  induction steps generalizing progress with
  | zero =>
      cases turns
      exact reaches_of_takePositionals fits waiting taken noneLeft noExtras
  | succ steps ih =>
      rw [interleave_succ] at turns
      split at turns
      · obtain ⟨middle, first, turns⟩ := bind_eq_ok_iff.mp turns
        have either : middle = progress ∨
            progress.takePositionals = .ok middle ∧ middle.positionals = [] := by
          split at first
          · cases first
            exact .inl rfl
          · exact (eq_or_done_of_takePositionals waiting first).imp_right fun done => ⟨first, done⟩
        rcases either with rfl | ⟨first, done⟩
        · rw [if_neg (Nat.lt_irrefl _)] at turns
          obtain ⟨next, front, turns⟩ := bind_eq_ok_iff.mp turns
          have split := List.takeWhile_append_dropWhile (p := fun word => !word.2.isOption)
            (l := middle.words)
          have leftFits (mark : Marked Arguments)
              (member : mark ∈ middle.words.dropWhile fun word => !word.2.isOption) :
              (programGrammar release).Fits mark :=
            fits mark ((List.dropWhile_sublist _).subset member)
          have turn := takeFront_cases records_programGrammar leftFits front
          dsimp only at turn
          obtain ⟨positionals, own, words, flag, ends⟩ := turn
          have nextFits : ∀ mark ∈ next.words, (programGrammar release).Fits mark :=
            fun mark member => leftFits mark (words ▸ List.mem_append_right own member)
          obtain ⟨none, reaches⟩ := ih nextFits (positionals.trans waiting) turns
          rcases ends with ⟨word, extras⟩ | ⟨only, extras⟩
          · -- a word that nothing takes is still left in the end
            simp [extras] at none
          · obtain ⟨noExtras, noSkipped⟩ := List.append_eq_nil_iff.mp (extras.symm.trans none)
            rw [List.map_eq_nil_iff.mp noSkipped, List.nil_append] at split
            exact ⟨noExtras, reaches.behind only (split.symm.trans words) flag⟩
        · obtain ⟨-, noWords, name, behind, words, -⟩ := command_at_front fits waiting first done
          rw [noWords, words, if_pos (by simp), interleave_of_nil steps noWords] at turns
          cases turns
          obtain ⟨state, extras⟩ := takePositionals_of_done done taken
          rw [state]
          exact reaches_of_takePositionals fits waiting first done (extras.symm.trans noExtras)
      · cases turns
        exact reaches_of_takePositionals fits waiting taken noneLeft noExtras

end Grammar

theorem Split.unique {words : List String} {front front' : List (Marked Arguments)}
    {name name' : String} {behind behind' : List String}
    (first : Split release words front name behind)
    (second : Split release words front' name' behind') :
    front = front' ∧ name = name' ∧ behind = behind' := by
  obtain ⟨⟨marks, marked, rfl⟩, options⟩ := first
  obtain ⟨⟨marks', marked', rfl⟩, options'⟩ := second
  obtain ⟨rfl, rfl, rfl⟩ :=
    options.unique options' (Except.ok.inj (marked.symm.trans marked'))
  exact ⟨rfl, rfl, rfl⟩

/-- The words of a program that is run: the options in front, the command, and what is read of
the words behind it. -/
theorem exists_split_of_read {words : List String} {arguments : Arguments}
    (accepted : Arguments.read release words = .ok arguments) :
    ∃ front name behind grammar build marks, Split release words front name behind ∧
      (commands release).lookup name = some (grammar, build) ∧
        grammar.marked behind = .ok marks ∧
        arguments.includePrerelease =
          (front.any (·.2.isFlag) || marks.any (·.2.isFlag)) := by
  obtain ⟨⟨found, extras⟩, read, rest⟩ := bind_eq_ok_iff.mp accepted
  dsimp only at rest
  split at rest
  · cases rest
  next allTaken =>
    cases rest
    obtain ⟨noExtras, noneBehind⟩ : extras = [] ∧ arguments.extras = [] := by
      simpa using allTaken
    obtain ⟨marks, progress, last, marked, turns, taken, noneLeft, rfl, all⟩ :=
      Grammar.exists_of_readKnown read
    obtain ⟨lastExtras, -⟩ := List.append_eq_nil_iff.mp (all.trans noExtras)
    obtain ⟨-, front, name, behind, state, words, options, flag, command⟩ :=
      Grammar.reaches_of_interleave _ (Grammar.fits_of_marked marked) rfl turns taken noneLeft
        lastExtras
    obtain ⟨grammar, build, own, known, ownRead, both⟩ := exists_of_takeCommand command
    rw [noneBehind] at ownRead
    obtain ⟨before, after, among, -⟩ := List.lookup_eq_some_iff.mp known
    have member : (name, grammar, build) ∈ commands release := by simp [among]
    obtain ⟨records, keeps⟩ := records_of_mem_commands member
    obtain ⟨ownMarks, ownMarked, ownFlag⟩ := Grammar.get_of_readKnown records keeps ownRead
    refine ⟨front, name, _, grammar, build, ownMarks, ⟨⟨behind, ?_, rfl⟩, options⟩, known,
      ownMarked, ?_⟩
    · rw [marked]
      exact congrArg Except.ok words
    · rw [both, flag, ownFlag]
      rfl

/-- Prereleases are included by the arguments exactly if the flag is given. -/
theorem includePrerelease_iff_flagGiven {words : List String} {arguments : Arguments}
    (accepted : Arguments.read release words = .ok arguments) :
    arguments.includePrerelease = true ↔ FlagGiven release words := by
  obtain ⟨front, name, behind, grammar, build, marks, split, known, marked, both⟩ :=
    exists_split_of_read accepted
  rw [both, Bool.or_eq_true]
  constructor
  · rintro (flag | flag)
    · exact .before split flag
    · exact .after split known marked flag
  · rintro (⟨other, flag⟩ | ⟨other, otherKnown, otherMarked, flag⟩)
    · obtain ⟨rfl, -, -⟩ := split.unique other
      exact .inl flag
    · obtain ⟨-, rfl, rfl⟩ := split.unique other
      rw [known] at otherKnown
      cases otherKnown
      rw [marked] at otherMarked
      cases otherMarked
      exact .inr flag

end VersionRange.CommandLine
