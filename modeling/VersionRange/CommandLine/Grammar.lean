import VersionRange.Text.Quoted
import VersionRange.Text.UnicodeDigit

/-!
# Command lines

A program takes options, which begin with a dash and may stand anywhere, and
positional arguments in their order.  Long options may be shortened as long as it
is clear which one is meant, short options without arguments may be put together
behind one dash, and behind two dashes that stand alone everything is positional.
Positional arguments are taken greedily, each run of them between two options at a
time.
-/

namespace VersionRange.CommandLine

/-- Why the arguments are not run. -/
inductive Stop
  /-- Help was asked for. -/
  | help
  /-- The program that refuses its arguments, and why. -/
  | usage (program message : String)
  deriving DecidableEq, Repr

/-- An option of a program that keeps its arguments in a `σ`. -/
structure CommandOption (σ : Type) where
  names : List String
  takesArgument : Bool
  /-- What becomes of the option and its argument, or what is wrong with the argument.
  There is none if the option takes none, or if two dashes that were given for it do not
  count. -/
  take : Option String → σ → Except String σ
  asksHelp : Bool := false

/-- Releases of the reader, which differ in options that stand in one word with something
else. -/
inductive Release
  /-- Two dashes that are given with an option are no argument.  Behind one dash stand
  options and nothing else. -/
  | earlier
  /-- Two dashes that are given with an option are its argument.  Behind one dash, what
  follows the last option is a word of its own, and an equals sign is not passed over. -/
  | later
  deriving DecidableEq, Repr

/-- How many arguments a positional argument takes. -/
inductive Arity
  | one
  | oneOrMore
  /-- An argument and everything behind it, options too. -/
  | rest
  deriving DecidableEq, Repr

structure Positional (σ : Type) where
  name : String
  arity : Arity
  take : List String → σ → Except Stop σ

structure Grammar (σ : Type) where
  program : String
  options : List (CommandOption σ)
  positionals : List (Positional σ)
  release : Release

/-- An argument as it looks before any is taken. -/
inductive Mark (σ : Type)
  | argument
  /-- Two dashes that stand alone. -/
  | dashes
  | unknownOption
  /-- An option under one of its names, and what is given with it in the same word. -/
  | option (option : CommandOption σ) (name : String) (given : Option String)

def Mark.isOption {σ : Type} : Mark σ → Bool
  | unknownOption | option .. => true
  | argument | dashes => false

/-- A word of the command line and its mark. -/
abbrev Marked (σ : Type) := String × Mark σ

namespace Grammar

variable {σ : Type}

def refuse (grammar : Grammar σ) (message : String) : Stop :=
  .usage grammar.program message

/-- A refusal because of one argument or option. -/
def refuseArgument (grammar : Grammar σ) (name message : String) : Stop :=
  grammar.refuse ("argument " ++ name ++ ": " ++ message)

def refuseOption (grammar : Grammar σ) (option : CommandOption σ) (message : String) : Stop :=
  grammar.refuseArgument ("/".intercalate option.names) message

/-- The options with their names, each name by itself. -/
def namedOptions (grammar : Grammar σ) : List (String × CommandOption σ) :=
  grammar.options.flatMap fun option => option.names.map fun name => (name, option)

/-- A word cut at its first equals sign. -/
def cutGiven (word : List Char) : List Char × Option (List Char) :=
  match word.dropWhile (· ≠ '=') with
  | [] => (word, none)
  | _ :: given => (word.takeWhile (· ≠ '='), some given)

/-- A negative number is not an option. -/
def isNegativeNumber : List Char → Bool
  | '-' :: rest =>
    let whole := rest.takeWhile isDecimalDigit
    match rest.dropWhile isDecimalDigit with
    | [] => !whole.isEmpty
    | '.' :: places => !places.isEmpty && places.all isDecimalDigit
    | _ => false
  | _ => false

/-- The options that a word may stand for although it is none of their names: a long
one that is shortened, or a short one with something put behind it. -/
def candidates (grammar : Grammar σ) (word : List Char) : List (String × Mark σ) :=
  match word with
  | '-' :: '-' :: _ =>
    let (front, given) := cutGiven word
    (grammar.namedOptions.filter fun (name, _) => front.isPrefixOf name.toList).map
      fun (name, option) => (name, .option option name (given.map String.ofList))
  | _ =>
    grammar.namedOptions.filterMap fun (name, option) =>
      if name.toList = word.take 2 then
        some (name, .option option name (some (String.ofList (word.drop 2))))
      else if word.isPrefixOf name.toList then some (name, .option option name none)
      else none

/-- The mark of a word. -/
def markOf (grammar : Grammar σ) (word : String) : Except Stop (Mark σ) :=
  let chars := word.toList
  if chars.head? ≠ some '-' then .ok .argument
  else
    match grammar.namedOptions.lookup word with
    | some option => .ok (.option option word none)
    | none =>
      if chars.length ≤ 1 then .ok .argument
      else
        let (front, given) := cutGiven chars
        match given, grammar.namedOptions.lookup (String.ofList front) with
        | some given, some option =>
          .ok (.option option (String.ofList front) (some (String.ofList given)))
        | _, _ =>
          match grammar.candidates chars with
          | [(_, mark)] => .ok mark
          | [] =>
            .ok (if isNegativeNumber chars || chars.contains ' ' then .argument
              else .unknownOption)
          | several =>
            .error (grammar.refuse ("ambiguous option: " ++ word ++ " could match " ++
              ", ".intercalate (several.map Prod.fst)))

/-- The words with their marks. -/
def marked (grammar : Grammar σ) : List String → Except Stop (List (Marked σ))
  | [] => .ok []
  | word :: rest =>
    if word = "--" then .ok ((word, .dashes) :: rest.map fun word => (word, .argument))
    else do
      let mark ← grammar.markOf word
      return (word, mark) :: (← marked grammar rest)

/-- The number of words that a positional argument takes from the front, if it can be
had there. -/
def reach (arity : Arity) (words : List (Marked σ)) : Option Nat :=
  let isDashes (word : Marked σ) : Bool := match word.2 with
    | .dashes => true
    | _ => false
  let isArgument (word : Marked σ) : Bool := match word.2 with
    | .argument => true
    | _ => false
  let front := (words.takeWhile isDashes).length
  match words.drop front with
  | [] => none
  | word :: rest =>
    if !isArgument word then none
    else
      let more := match arity with
        | .one => (rest.takeWhile isDashes).length
        | .oneOrMore => (rest.takeWhile fun word => !word.2.isOption).length
        | .rest => rest.length
      some (front + 1 + more)

/-- The words for a positional argument.  The first two dashes among them are dropped,
unless it takes all the rest. -/
def valuesOf (arity : Arity) (words : List String) : List String :=
  match arity with
  | .rest => words
  | .one | .oneOrMore => words.erase "--"

/-- What has been taken so far. -/
structure Progress (σ : Type) where
  words : List (Marked σ)
  positionals : List (Positional σ)
  state : σ
  /-- Words that nothing takes. -/
  extras : List String

/-- Takes the positional arguments at the front, as many as can be had there. -/
def takePositionals : List (Positional σ) → List (Marked σ) → σ →
    Except Stop (List (Positional σ) × List (Marked σ) × σ)
  | [], words, state => .ok ([], words, state)
  | positional :: others, words, state =>
    match reach positional.arity words with
    | none => .ok (positional :: others, words, state)
    | some count => do
      let values := valuesOf positional.arity ((words.take count).map Prod.fst)
      takePositionals others (words.drop count) (← positional.take values state)

def Progress.takePositionals (progress : Progress σ) : Except Stop (Progress σ) := do
  let (positionals, words, state) ←
    Grammar.takePositionals progress.positionals progress.words progress.state
  return { progress with positionals := positionals, words := words, state := state }

/-- The argument that is given in the word of its option. -/
def givenArgument (grammar : Grammar σ) (given : String) : Option String :=
  match grammar.release with
  | .earlier => if given = "--" then none else some given
  | .later => some given

/-- Takes an option with its argument. -/
def takeOption (grammar : Grammar σ) (option : CommandOption σ) (argument : Option String)
    (state : σ) : Except Stop σ :=
  if option.asksHelp then .error .help
  else (option.take argument state).mapError (grammar.refuseOption option)

def refuseGiven (grammar : Grammar σ) (option : CommandOption σ) (given : List Char) : Stop :=
  grammar.refuseOption option ("ignored explicit argument " ++ quoted (String.ofList given))

/-- The options that are put together behind one dash, the first of which is given, and the
word that is left of them.  None of the options takes an argument. -/
def cluster (grammar : Grammar σ) (option : CommandOption σ) :
    List Char → Except Stop (List (CommandOption σ) × Option String)
  | [] => .ok ([option], none)
  | c :: rest =>
    match (grammar.namedOptions.lookup (String.ofList ['-', c])).filter (!·.takesArgument) with
    | some next => do
      let (others, left) ← cluster grammar next rest
      return (option :: others, left)
    | none =>
      match grammar.release, c with
      | .earlier, _ | .later, '-' => .error (grammar.refuseGiven option (c :: rest))
      | .later, '=' => .error (grammar.refuseGiven option rest)
      | .later, _ => .ok ([option], some (String.ofList ('-' :: c :: rest)))

/-- Whether an option does not go with what is given in its word, as it takes no argument.
Behind one dash there may be more options. -/
def refusesGiven (grammar : Grammar σ) (word name : String) (given : List Char) : Bool :=
  name.startsWith "--" || given.isEmpty ||
    grammar.release = .later && (name.toList ++ ['=']).isPrefixOf word.toList

/-- Takes the option of a word.  Gives the words behind it, and the word that is left of
it. -/
def takeKnown (grammar : Grammar σ) (option : CommandOption σ) (word name : String)
    (given : Option String) (words : List (Marked σ)) (state : σ) :
    Except Stop (List (Marked σ) × σ × Option String) :=
  match given, words with
  | none, words =>
    if option.takesArgument then
      match words with
      | (argument, .argument) :: rest => do
        return (rest, ← grammar.takeOption option (some argument) state, none)
      | _ => .error (grammar.refuseOption option "expected one argument")
    else do return (words, ← grammar.takeOption option none state, none)
  | some given, words =>
    if option.takesArgument then do
      return (words, ← grammar.takeOption option (grammar.givenArgument given) state, none)
    else if grammar.refusesGiven word name given.toList then
      .error (grammar.refuseGiven option given.toList)
    else do
      let (together, left) ← grammar.cluster option given.toList
      return (words, ← together.foldlM (fun state option => grammar.takeOption option none state)
        state, left)

/-- Takes the option at the front of the words, if there is one. -/
def takeFront (grammar : Grammar σ) (progress : Progress σ) : Except Stop (Progress σ) :=
  match progress.words with
  | (word, .unknownOption) :: rest =>
    .ok { progress with words := rest, extras := progress.extras ++ [word] }
  | (word, .option option name given) :: rest => do
    let (words, state, left) ← grammar.takeKnown option word name given rest progress.state
    return { progress with
      words := words
      state := state
      extras := progress.extras ++ left.toList }
  | _ => .ok progress

/-- Takes positional arguments and options in turn while there are options left. -/
def interleave (grammar : Grammar σ) : Nat → Progress σ → Except Stop (Progress σ)
  | 0, progress => .ok progress
  | steps + 1, progress => do
    if !(progress.words.any fun word => word.2.isOption) then return progress
    let startsWithOption := progress.words.head?.any fun word => word.2.isOption
    let taken ← if startsWithOption then pure progress else progress.takePositionals
    if taken.words.length < progress.words.length then interleave grammar steps taken
    else
      let skipped := taken.words.takeWhile fun word => !word.2.isOption
      let rest := taken.words.dropWhile fun word => !word.2.isOption
      let next ← grammar.takeFront
        { taken with words := rest, extras := taken.extras ++ skipped.map Prod.fst }
      interleave grammar steps next

/-- Reads the arguments of a program.  Gives the words that nothing takes too. -/
def readKnown (grammar : Grammar σ) (start : σ) (arguments : List String) :
    Except Stop (σ × List String) := do
  let words ← grammar.marked arguments
  let progress ← grammar.interleave (words.length + 1) ⟨words, grammar.positionals, start, []⟩
  let progress ← progress.takePositionals
  if !progress.positionals.isEmpty then
    throw (grammar.refuse ("the following arguments are required: " ++
      ", ".intercalate (progress.positionals.map Positional.name)))
  return (progress.state, progress.extras ++ progress.words.map Prod.fst)

end Grammar

end VersionRange.CommandLine
