import Mathlib.Data.List.ReduceOption
import VersionRange.Proofs.CommandLine.Documents
import VersionRange.Proofs.CommandLine.Flag
import VersionRange.Proofs.Dependencies.Overlong
import VersionRange.Proofs.Manifest.Escapes
import VersionRange.Proofs.Manifest.Reloading

/-!
# The verdict of a run

A run loads its settings and hands the options to its command, which reads what it is about
and says whether all is well.  So the exit code tells how far the run came: 0 and 10 that all
was read, 1 that something was not.  With 0 and 10 the output is one object, in which the same
is said about each version or each dependency.
-/

namespace VersionRange

open Fallible

namespace Value

theorem text_sameKey_iff {name : String} {key : Value} :
    (text name).sameKey key = true ↔ key = text name := by
  cases key with
  | text other => rw [sameKey_text, beq_iff_eq, text.injEq, eq_comm]
  | _ => simp [sameKey, wholeNumber?]

theorem sameKey_text_iff {key : Value} {name : String} :
    key.sameKey (text name) = true ↔ key = text name := by
  cases key <;> simp [sameKey, wholeNumber?]

end Value

namespace Finding

theorem installed?_cons (key value name : Value) (entries : List (Value × Value)) :
    installed? ((key, value) :: entries) name =
      if key.sameKey name then some value else installed? entries name := by
  rw [installed?, List.find?_cons]
  cases key.sameKey name <;> rfl

theorem installed?_setEntry (name : String) (value key : Value) (entries : List (Value × Value)) :
    installed? (Value.setEntry (.text name) value entries) key =
      if (Value.text name).sameKey key then some value else installed? entries key := by
  induction entries with
  | nil => exact installed?_cons (.text name) value key []
  | cons entry rest ih =>
      obtain ⟨own, old⟩ := entry
      rw [Value.setEntry]
      by_cases isName : own.sameKey (.text name) = true
      · obtain rfl := Value.sameKey_text_iff.mp isName
        rw [if_pos isName, installed?_cons, installed?_cons]
        split <;> rfl
      · rw [if_neg isName, installed?_cons, installed?_cons, ih]
        by_cases isKey : (Value.text name).sameKey key = true
        · obtain rfl := Value.text_sameKey_iff.mp isKey
          simp only [if_neg isName, if_pos isKey]
        · simp only [if_neg isKey]

theorem stands_text_iff {text : String} {v : Version} :
    Stands (.text text) v ↔ Version.parse text = .ok v := by
  constructor
  · intro stands
    cases stands with
    | text read => exact read
  · exact .text

end Finding

namespace Manifest

theorem isKey_of_mem_declared {document : Value} (keyed : document.Keyed) {entry : Value × Value}
    (member : entry ∈ declared document) : entry.1.isKey = true := by
  unfold declared at member
  split at member
  next entries =>
    split at member
    next dependencies found =>
      exact (Value.keyed_object_iff.mp (Value.keyed_of_found keyed found) entry member).1
    · cases member
  · cases member

/-- A manifest that was loaded is in its normal form, and the names of its dependencies are
keys. -/
theorem normal_of_load {options : ParseOptions} {files : Files} {path : Path} {m : Manifest}
    (loaded : (Noting.collect (load options files path)).1 = .ok m) :
    m.Normal options ∧ ∀ dependency ∈ m.dependencies, dependency.1.isKey = true := by
  rw [(comesTo_load options files path).collect] at loaded
  obtain ⟨document, read, made⟩ := bind_eq_ok_iff.mp loaded
  refine ⟨normal_of_outcome made, fun dependency member => ?_⟩
  obtain ⟨said, -, form, common, -⟩ := outcome_eq_ok_iff.mp made
  have names : said.dependencies.map Prod.fst = m.dependencies.map Prod.fst := by
    rw [← List.forall₂_eq_eq_eq, List.forall₂_map_left_iff, List.forall₂_map_right_iff]
    exact common.dependencies.imp fun _ _ related => related.1
  have isName := List.mem_map_of_mem (f := Prod.fst) member
  rw [← names] at isName
  obtain ⟨own, among, same⟩ := List.mem_map.mp isName
  have isDeclared : (own.1, .text own.2) ∈ declared document := by
    rw [declared_of_read? form]
    exact List.mem_map_of_mem among
  rw [← same]
  exact isKey_of_mem_declared (keyed_of_readDocument keyed_readers read) isDeclared

end Manifest

namespace CommandLine

/-- The version is the last one that is given for the name. -/
def LastGiven (installed : List (Option (String × String))) (name version : String) : Prop :=
  ∃ before after, installed = before ++ some (name, version) :: after ∧
    ∀ other, some (name, other) ∉ after

theorem not_lastGiven_nil (name version : String) : ¬LastGiven [] name version := by
  rintro ⟨before, after, split, -⟩
  simp at split

theorem lastGiven_append_iff {installed : List (Option (String × String))}
    {pair : String × String} {name version : String} :
    LastGiven (installed ++ [some pair]) name version ↔
      pair = (name, version) ∨ pair.1 ≠ name ∧ LastGiven installed name version := by
  constructor
  · rintro ⟨before, after, split, none⟩
    rcases List.eq_nil_or_concat after with rfl | ⟨between, last, rfl⟩
    · obtain ⟨-, same⟩ := List.append_inj' split rfl
      exact .inl (Option.some.inj (List.singleton_inj.mp same))
    · have whole : installed ++ [some pair] =
          (before ++ some (name, version) :: between) ++ [last] := by
        simpa using split
      obtain ⟨rfl, same⟩ := List.append_inj' whole rfl
      obtain rfl := List.singleton_inj.mp same
      refine .inr ⟨?_, before, between, rfl, fun other member => none other (by simp [member])⟩
      rintro rfl
      exact none pair.2 (by simp)
  · rintro (rfl | ⟨differs, before, after, rfl, none⟩)
    · exact ⟨installed, [], rfl, by simp⟩
    · refine ⟨before, after ++ [some pair], by simp, fun other member => ?_⟩
      rcases List.mem_append.mp member with earlier | last
      · exact none other earlier
      · obtain rfl := Option.some.inj (List.mem_singleton.mp last)
        exact differs rfl

/-- Entries are set pair by pair, so that the last pair for a name is the one that counts. -/
theorem installed?_foldl {pairs : List (String × String)} {key value : Value} :
    Finding.installed? (pairs.foldl
      (fun entries (name, version) => Value.setEntry (.text name) (.text version) entries) [])
        key = some value ↔
      ∃ name version, key = .text name ∧ LastGiven (pairs.map some) name version ∧
        value = .text version := by
  induction pairs using List.reverseRecOn with
  | nil => simp [Finding.installed?, not_lastGiven_nil]
  | append_singleton pairs pair ih =>
      obtain ⟨name, version⟩ := pair
      rw [List.foldl_append, List.foldl_cons, List.foldl_nil, Finding.installed?_setEntry,
        List.map_append, List.map_singleton]
      simp only [lastGiven_append_iff]
      by_cases isKey : (Value.text name).sameKey key = true
      · obtain rfl := Value.text_sameKey_iff.mp isKey
        rw [if_pos isKey]
        constructor
        · rintro ⟨⟩
          exact ⟨name, version, rfl, .inl rfl, rfl⟩
        · rintro ⟨own, last, ⟨⟩, ⟨⟨⟩⟩ | ⟨differs, -⟩, rfl⟩
          · rfl
          · exact absurd rfl differs
      · rw [if_neg isKey, ih]
        refine exists_congr fun own => exists_congr fun last => and_congr_right fun isOwn => ?_
        have differs : name ≠ own := by
          rintro rfl
          exact isKey (Value.text_sameKey_iff.mpr isOwn)
        simp [differs]

theorem map_some_reduceOption {installed : List (Option (String × String))}
    (all : ∀ pair ∈ installed, pair.isNone = false) :
    installed.reduceOption.map some = installed := by
  induction installed with
  | nil => rfl
  | cons pair rest ih =>
      obtain ⟨first, others⟩ := List.forall_mem_cons.mp all
      cases pair with
      | none => cases first
      | some pair => rw [List.reduceOption_cons_of_some, List.map_cons, ih others]

/-- What is installed under a name is the version that is given last for it. -/
theorem installed?_eq_some_iff {installed : List (Option (String × String))}
    {entries : List (Value × Value)} (all : installedEntries installed = .ok entries)
    {key value : Value} :
    Finding.installed? entries key = some value ↔
      ∃ name version, key = .text name ∧ LastGiven installed name version ∧
        value = .text version := by
  unfold installedEntries at all
  split at all
  · cases all
  next noneMissing =>
    cases all
    rw [installed?_foldl, map_some_reduceOption (List.findIdx?_eq_none_iff.mp noneMissing)]

theorem fault_of_installedEntries {installed : List (Option (String × String))} {fault : Fault}
    (fails : installedEntries installed = .error fault) :
    ∃ position, fault = .missingPair position := by
  unfold installedEntries at fails
  split at fails
  · cases fails
    exact ⟨_, rfl⟩
  · cases fails

/-- A fault that is told in the end of a run. -/
def IsTold (fault : Fault) : Prop :=
  (∃ cause, fault = .settings cause) ∨ isInputFault fault = true

/-- How a run ends when its command, or loading the settings for it, comes to something. -/
inductive Ends : Except Fault Finished → Outcome → Prop
  | finished {matched : Bool} {document : Value} {text before : String}
      (written : Json.write document = .ok text) :
      Ends (.ok (matched, document)) ⟨mismatchCode matched, text ++ "\n", before, none⟩
  | failed {fault : Fault} {before : String} (told : IsTold fault) :
      Ends (.error fault) (failed before fault)

/-- What a run comes to before anything is written. -/
def finished (world : World) (arguments : Arguments) : Except Fault Finished := do
  let settings ← Settings.load (← configPath arguments.config) world
  (runCommand ⟨settings.includePrerelease || arguments.includePrerelease⟩ world.files
    arguments.command).collect.1

/-- The options that a run works with: prereleases are included if the settings say so or the
flag is given. -/
def WorksWith (release : Release) (world : World) (words : List String) (arguments : Arguments)
    (options : ParseOptions) : Prop :=
  ∃ asked settings, configPath arguments.config = .ok asked ∧
    Settings.load asked world = .ok settings ∧
      (options.includePrerelease = true ↔
        settings.includePrerelease = true ∨ FlagGiven release words)

variable {release : Release} {world : World} {words : List String} {arguments : Arguments}
  {outcome : Outcome} {options : ParseOptions}

theorem ends_of_run (accepted : Arguments.read release words = .ok arguments)
    (returns : run release world words = .ok outcome) :
    Ends (finished world arguments) outcome := by
  rw [run, accepted] at returns
  obtain ⟨asked, isPath, rest⟩ := bind_eq_ok_iff.mp returns
  rw [finished, isPath, ok_bind]
  split at rest
  next fault refused =>
    cases rest
    rw [refused]
    exact .failed (.inl ⟨fault, rfl⟩)
  · cases rest
  next settings loaded =>
    rw [loaded, ok_bind]
    dsimp only at rest
    generalize (runCommand _ world.files arguments.command).collect = came at rest ⊢
    obtain ⟨result, journal⟩ := came
    dsimp only at rest ⊢
    split at rest
    next matched document =>
      obtain ⟨text, written, whole⟩ := bind_eq_ok_iff.mp rest
      cases whole
      exact .finished written
    next fault =>
      split at rest
      next told =>
        cases rest
        exact .failed (.inr told)
      · cases rest

theorem worksWith_iff (accepted : Arguments.read release words = .ok arguments) :
    WorksWith release world words arguments options ↔
      ∃ asked settings, configPath arguments.config = .ok asked ∧
        Settings.load asked world = .ok settings ∧
          options = ⟨settings.includePrerelease || arguments.includePrerelease⟩ := by
  obtain ⟨includePrerelease⟩ := options
  refine exists_congr fun asked => exists_congr fun settings => and_congr_right fun _ =>
    and_congr_right fun _ => ?_
  rw [← includePrerelease_iff_flagGiven accepted, ParseOptions.mk.injEq, ← Bool.or_eq_true]
  exact Bool.eq_iff_iff.symm

theorem finished_eq_iff (accepted : Arguments.read release words = .ok arguments)
    (works : WorksWith release world words arguments options) :
    finished world arguments =
      (runCommand options world.files arguments.command).collect.1 := by
  obtain ⟨asked, settings, isPath, loaded, rfl⟩ := (worksWith_iff accepted).mp works
  rw [finished, isPath, ok_bind, loaded, ok_bind]

theorem exists_worksWith (accepted : Arguments.read release words = .ok arguments)
    {result : Finished} (reached : finished world arguments = .ok result) :
    ∃ options, WorksWith release world words arguments options := by
  obtain ⟨asked, isPath, rest⟩ := bind_eq_ok_iff.mp reached
  obtain ⟨settings, loaded, -⟩ := bind_eq_ok_iff.mp rest
  exact ⟨_, (worksWith_iff accepted).mpr ⟨asked, settings, isPath, loaded, rfl⟩⟩

theorem WorksWith.unique (accepted : Arguments.read release words = .ok arguments)
    {others : ParseOptions} (first : WorksWith release world words arguments options)
    (second : WorksWith release world words arguments others) : options = others := by
  obtain ⟨asked, settings, isPath, loaded, rfl⟩ := (worksWith_iff accepted).mp first
  obtain ⟨other, otherSettings, isOther, otherLoaded, rfl⟩ := (worksWith_iff accepted).mp second
  cases isPath.symm.trans isOther
  cases loaded.symm.trans otherLoaded
  rfl

/-- The verdict of a run about what its command has read: the exit code is 0 if that is good, 10
if it is not, and 1 if it could not be read.  With 0 and 10 the output is one object, whose
entries tell what was read, and with 1 it is empty. -/
structure Verdict {α : Type} (reads good : α → Prop) (tells : α → List (String × Value) → Prop)
    (outcome : Outcome) : Prop where
  matched : outcome.exitCode = 0 ↔ ∃ a, reads a ∧ good a
  mismatched : outcome.exitCode = 10 ↔ ∃ a, reads a ∧ ¬good a
  refused : outcome.exitCode = 1 ↔ ¬∃ a, reads a
  object : outcome.exitCode = 0 ∨ outcome.exitCode = 10 → ∃ a entries, reads a ∧ tells a entries ∧
    Json.read outcome.output = .ok (.object (Value.named entries))
  silent : outcome.exitCode = 1 → outcome.output = ""

theorem verdict_of_ends {α : Type} {reads good : α → Prop}
    {tells : α → List (String × Value) → Prop} {result : Except Fault Finished}
    (ends : Ends result outcome) (unique : ∀ a b, reads a → reads b → a = b)
    (succeeds : ∀ matched document, result = .ok (matched, document) →
      ∃ a, reads a ∧ (matched = true ↔ good a) ∧
        ∀ text, Json.write document = .ok text →
          ∃ entries, tells a entries ∧
            Json.read (text ++ "\n") = .ok (.object (Value.named entries)))
    (fails : ∀ fault, result = .error fault → IsTold fault → ¬∃ a, reads a) :
    Verdict reads good tells outcome := by
  cases ends with
  | @finished matched document text before written =>
      obtain ⟨a, isRead, agrees, told⟩ := succeeds matched document rfl
      obtain ⟨entries, tells, reread⟩ := told text written
      have only (p : α → Prop) : (∃ b, reads b ∧ p b) ↔ p a :=
        ⟨fun ⟨b, other, holds⟩ => unique a b isRead other ▸ holds, fun holds => ⟨a, isRead, holds⟩⟩
      refine ⟨?_, ?_, ?_, fun _ => ⟨a, entries, isRead, tells, reread⟩, ?_⟩
      · rw [only, ← agrees]
        cases matched <;> simp [mismatchCode]
      · rw [only, ← agrees]
        cases matched <;> simp [mismatchCode]
      · refine iff_of_false ?_ fun none => none ⟨a, isRead⟩
        cases matched <;> simp [mismatchCode]
      · cases matched <;> simp [mismatchCode]
  | @failed fault before told =>
      have none := fails fault rfl told
      refine ⟨?_, ?_, iff_of_true rfl none, ?_, fun _ => rfl⟩
      · exact iff_of_false (by simp [failed]) fun ⟨a, isRead, _⟩ => none ⟨a, isRead⟩
      · exact iff_of_false (by simp [failed]) fun ⟨a, isRead, _⟩ => none ⟨a, isRead⟩
      · rintro (⟨⟨⟩⟩ | ⟨⟨⟩⟩)

/-- The settings load, the range is read with their options, and all versions are read. -/
def ReadsVersions (release : Release) (world : World) (words : List String)
    (arguments : Arguments) (range : String) (versions : List String) (found : Range) : Prop :=
  (∃ options, WorksWith release world words arguments options ∧
    Range.parse options range = .ok found) ∧
    ∀ text ∈ versions, ∃ v, Version.parse text = .ok v

/-- Every version is in the range. -/
def IncludesAll (versions : List String) (found : Range) : Prop :=
  ∀ text ∈ versions, ∃ v, Version.parse text = .ok v ∧ found.includes v = true

/-- The entries tell for each version whether it is in the range. -/
def TellsVersions (versions : List String) (found : Range) (entries : List (String × Value)) :
    Prop :=
  ∃ results, Results found versions results ∧ entries = resultEntries found results

/-- What a check of versions comes to, aside from the journal. -/
def versionsOutcome (options : ParseOptions) (range : String) (versions : List String) :
    Except Fault Finished := do
  let found ← Range.parse options range
  let results ← versions.mapM (result found)
  let entries := results.foldl
    (fun entries (text, included) => Value.setEntry (.text text) (.bool included) entries) []
  return (results.all Prod.snd, .object [(.text "range", .text found.text),
    (.text "results", .object entries)])

theorem comesTo_checkVersions (options : ParseOptions) (range : String) (versions : List String) :
    (checkVersions options range versions).ComesTo (versionsOutcome options range versions) := by
  apply (Range.comesTo_parseNoting options range).bind
  intro found
  apply (Noting.comesTo_lift _).bind
  exact fun results => Noting.comesTo_pure _

theorem all_results_iff {found : Range} {versions : List String} {results : List (String × Bool)}
    (each : versions.mapM (result found) = .ok results) :
    results.all Prod.snd = true ↔ IncludesAll versions found := by
  rw [List.all_eq_true]
  constructor
  · intro all text member
    obtain ⟨one, isResult⟩ := mapM_succeeds_iff.mp ⟨results, each⟩ text member
    obtain ⟨v, isVersion, rfl⟩ := result_eq_ok_iff.mp isResult
    exact ⟨v, isVersion, all _ (mem_of_mapM each member isResult)⟩
  · intro all one member
    obtain ⟨text, among, isResult⟩ := exists_item_of_mapM each member
    obtain ⟨v, isVersion, rfl⟩ := result_eq_ok_iff.mp isResult
    obtain ⟨w, isOther, included⟩ := all text among
    cases isVersion.symm.trans isOther
    exact included

theorem verdict_of_versions (accepted : Arguments.read release words = .ok arguments)
    (ends : Ends (finished world arguments) outcome) {range : String} {versions : List String}
    (command : arguments.command = .versions range versions) :
    Verdict (ReadsVersions release world words arguments range versions) (IncludesAll versions)
      (TellsVersions versions) outcome := by
  have checked (options : ParseOptions) (works : WorksWith release world words arguments options) :
      finished world arguments = versionsOutcome options range versions := by
    rw [finished_eq_iff accepted works, command]
    exact (comesTo_checkVersions options range versions).collect
  apply verdict_of_ends ends
  · rintro found other ⟨⟨options, works, read⟩, -⟩ ⟨⟨others, alsoWorks, alsoRead⟩, -⟩
    obtain rfl := works.unique accepted alsoWorks
    exact Except.ok.inj (read.symm.trans alsoRead)
  · intro matched document reached
    obtain ⟨options, works⟩ := exists_worksWith accepted reached
    rw [checked options works] at reached
    obtain ⟨found, read, rest⟩ := bind_eq_ok_iff.mp reached
    obtain ⟨results, each, whole⟩ := bind_eq_ok_iff.mp rest
    obtain ⟨rfl, rfl⟩ := Prod.mk.inj (Except.ok.inj whole)
    have versionsRead : ∀ text ∈ versions, ∃ v, Version.parse text = .ok v := by
      intro text member
      obtain ⟨one, isResult⟩ := mapM_succeeds_iff.mp ⟨results, each⟩ text member
      obtain ⟨v, isVersion, -⟩ := result_eq_ok_iff.mp isResult
      exact ⟨v, isVersion⟩
    refine ⟨found, ⟨⟨options, works, read⟩, versionsRead⟩, all_results_iff each,
      fun text written => ?_⟩
    have none : Results found [] [] := ⟨.nil, by simp⟩
    obtain ⟨told, entries, isTold⟩ := exists_results none (mapM_eq_ok_iff.mp each)
    rw [Value.named, List.map_nil] at entries
    rw [entries] at written
    exact ⟨_, ⟨told, isTold, rfl⟩, read_resultEntries read isTold written⟩
  · rintro fault fails - ⟨found, ⟨options, works, read⟩, each⟩
    have all : ∀ text ∈ versions, ∃ one, result found text = .ok one := by
      intro text member
      obtain ⟨v, isVersion⟩ := each text member
      exact ⟨_, result_eq_ok_iff.mpr ⟨v, isVersion, rfl⟩⟩
    obtain ⟨results, succeeds⟩ := mapM_succeeds_iff.mpr all
    rw [checked options works, versionsOutcome, read, ok_bind, succeeds] at fails
    cases fails

/-- The settings load, and so does the manifest with their options. -/
def ReadsManifest (release : Release) (world : World) (words : List String) (arguments : Arguments)
    (manifest : String) (m : Manifest) : Prop :=
  ∃ options, WorksWith release world words arguments options ∧
    (Noting.collect (Manifest.load options world.files (Path.ofText manifest))).1 = .ok m

/-- What is given last for the dependency is a version that its range includes. -/
def Met (installed : List (Option (String × String))) (dependency : Value × Range) : Prop :=
  ∃ name version v, dependency.1 = .text name ∧ LastGiven installed name version ∧
    Version.parse version = .ok v ∧ dependency.2.includes v = true

/-- What a finding tells about the dependency that it is for. -/
structure Tells (installed : List (Option (String × String))) (dependency : Value × Range)
    (finding : Finding) : Prop where
  name : finding.name = dependency.1
  required : finding.required = dependency.2.text
  given : ∀ version, finding.installed = some version ↔
    ∃ name, dependency.1 = .text name ∧ LastGiven installed name version
  ok : finding.status = .ok ↔ Met installed dependency
  missing : finding.status = .missing ↔ finding.installed = none

/-- The entries tell for each dependency how it stands, and whether one of them is not met. -/
def TellsDependencies (installed : List (Option (String × String))) (m : Manifest)
    (entries : List (String × Value)) : Prop :=
  ∃ findings problems, List.Forall₂ (Tells installed) m.dependencies findings ∧
    (problems = true ↔ ∃ dependency ∈ m.dependencies, ¬Met installed dependency) ∧
      entries = reportEntries m findings problems

theorem tells_of_answer {installed : List (Option (String × String))}
    {entries : List (Value × Value)} (all : installedEntries installed = .ok entries)
    {dependency : Value × Range} {finding : Finding}
    (found : Finding.answer entries dependency = .ok finding) :
    Tells installed dependency finding := by
  have answers := Finding.answers_of_answer found
  refine ⟨answers.name, answers.required, fun version => ?_, answers.ok.trans ?_,
    answers.missing.trans ?_⟩
  · simp only [answers.given, Option.map_eq_some_iff, installed?_eq_some_iff all]
    constructor
    · rintro ⟨_, ⟨name, own, isName, last, rfl⟩, rfl⟩
      exact ⟨name, isName, last⟩
    · rintro ⟨name, isName, last⟩
      exact ⟨_, ⟨name, version, isName, last, rfl⟩, rfl⟩
  · simp only [installed?_eq_some_iff all]
    constructor
    · rintro ⟨_, v, ⟨name, version, isName, last, rfl⟩, stands, included⟩
      exact ⟨name, version, v, isName, last, Finding.stands_text_iff.mp stands, included⟩
    · rintro ⟨name, version, v, isName, last, read, included⟩
      exact ⟨_, v, ⟨name, version, isName, last, rfl⟩, .text read, included⟩
  · rw [answers.given, Option.map_eq_none_iff]

theorem exists_unmet_iff {installed : List (Option (String × String))}
    {dependencies : List (Value × Range)} {findings : List Finding}
    (each : List.Forall₂ (Tells installed) dependencies findings) :
    (∃ finding ∈ findings, finding.status ≠ .ok) ↔
      ∃ dependency ∈ dependencies, ¬Met installed dependency := by
  induction each with
  | nil => simp
  | cons head _ ih => rw [List.exists_mem_cons_iff, List.exists_mem_cons_iff, ih, ne_eq, head.ok]

theorem hasProblems_iff {m : Manifest} {findings : List Finding} :
    (Report.ofFindings m findings).hasProblems = true ↔
      ∃ finding ∈ findings, finding.status ≠ .ok := by
  simp [Report.hasProblems, Report.problems, Report.ofFindings, Finding.isOk]

/-- What a check of dependencies comes to, aside from the journal. -/
def dependenciesOutcome (options : ParseOptions) (files : Files) (manifest : String)
    (installed : List (Option (String × String))) : Except Fault Finished := do
  let m ← (Noting.collect (Manifest.load options files (Path.ofText manifest))).1
  let entries ← installedEntries installed
  let findings ← m.dependencies.mapM (Finding.answer entries)
  return (!(Report.ofFindings m findings).hasProblems, (Report.ofFindings m findings).toDocument)

theorem comesTo_checkDependencies (options : ParseOptions) (files : Files) (manifest : String)
    (installed : List (Option (String × String))) :
    (checkDependencies options files manifest installed).ComesTo
      (dependenciesOutcome options files manifest installed) := by
  have loads := Manifest.comesTo_load options files (Path.ofText manifest)
  rw [dependenciesOutcome, loads.collect]
  apply loads.bind
  intro m
  apply (Noting.comesTo_lift _).bind
  intro entries
  apply (Finding.comesTo_ofManifest m entries).bind
  exact fun findings => Noting.comesTo_pure _

/-- What can still fail when the manifest is loaded is not told, so that no code is returned. -/
theorem not_isTold_of_loaded {files : Files} {manifest : String}
    {installed : List (Option (String × String))} {m : Manifest} {fault : Fault}
    (loaded : (Noting.collect (Manifest.load options files (Path.ofText manifest))).1 = .ok m)
    (fails : dependenciesOutcome options files manifest installed = .error fault) :
    ¬IsTold fault := by
  rw [dependenciesOutcome, loaded, ok_bind] at fails
  intro told
  rcases bind_eq_error_iff.mp fails with missing | ⟨entries, -, rest⟩
  · obtain ⟨position, rfl⟩ := fault_of_installedEntries missing
    rcases told with ⟨_, ⟨⟩⟩ | ⟨⟨⟩⟩
  · rcases bind_eq_error_iff.mp rest with unanswered | ⟨findings, -, ⟨⟩⟩
    obtain ⟨_, dependency, _, -, refused, -⟩ := mapM_eq_error_iff.mp unanswered
    obtain ⟨cause, rfl⟩ := Finding.answer_fails refused
    rcases told with ⟨_, ⟨⟩⟩ | ⟨⟨⟩⟩

theorem verdict_of_dependencies (accepted : Arguments.read release words = .ok arguments)
    (ends : Ends (finished world arguments) outcome) {manifest : String}
    {installed : List (Option (String × String))}
    (command : arguments.command = .dependencies manifest installed) :
    Verdict (ReadsManifest release world words arguments manifest)
      (fun m => ∀ dependency ∈ m.dependencies, Met installed dependency)
      (TellsDependencies installed) outcome := by
  have checked (options : ParseOptions) (works : WorksWith release world words arguments options) :
      finished world arguments = dependenciesOutcome options world.files manifest installed := by
    rw [finished_eq_iff accepted works, command]
    exact (comesTo_checkDependencies options world.files manifest installed).collect
  apply verdict_of_ends ends
  · rintro m other ⟨options, works, loaded⟩ ⟨others, alsoWorks, alsoLoaded⟩
    obtain rfl := works.unique accepted alsoWorks
    exact Except.ok.inj (loaded.symm.trans alsoLoaded)
  · intro matched document reached
    obtain ⟨options, works⟩ := exists_worksWith accepted reached
    rw [checked options works] at reached
    obtain ⟨m, loaded, rest⟩ := bind_eq_ok_iff.mp reached
    obtain ⟨entries, all, rest⟩ := bind_eq_ok_iff.mp rest
    obtain ⟨findings, answered, whole⟩ := bind_eq_ok_iff.mp rest
    obtain ⟨rfl, rfl⟩ := Prod.mk.inj (Except.ok.inj whole)
    have each : List.Forall₂ (Tells installed) m.dependencies findings :=
      (mapM_eq_ok_iff.mp answered).imp fun _ _ => tells_of_answer all
    have problems : (Report.ofFindings m findings).hasProblems = true ↔
        ∃ dependency ∈ m.dependencies, ¬Met installed dependency :=
      hasProblems_iff.trans (exists_unmet_iff each)
    obtain ⟨normal, keys⟩ := Manifest.normal_of_load loaded
    refine ⟨m, ⟨options, works, loaded⟩, ?_, fun text written =>
      ⟨_, ⟨findings, _, each, problems, rfl⟩, read_reportEntries normal.version ?_ written⟩⟩
    · rw [Bool.not_eq_true', ← Bool.not_eq_true, problems]
      simp
    · intro finding member
      obtain ⟨dependency, among, answer⟩ := exists_item_of_mapM answered member
      have tells := tells_of_answer all answer
      rw [tells.name, tells.required]
      exact ⟨keys dependency among, Range.joined_text (normal.range dependency among)⟩
  · rintro fault fails told ⟨m, options, works, loaded⟩
    rw [checked options works] at fails
    exact not_isTold_of_loaded loaded fails told

/-- A run with arguments that are understood, if it returns an exit code, ends with the verdict
about what its command has read. -/
theorem run_verdict (release : Release) (world : World) (words : List String)
    (arguments : Arguments) (outcome : Outcome)
    (accepted : Arguments.read release words = .ok arguments)
    (returns : run release world words = .ok outcome) :
    match arguments.command with
    | .versions range versions =>
      Verdict (ReadsVersions release world words arguments range versions) (IncludesAll versions)
        (TellsVersions versions) outcome
    | .dependencies manifest installed =>
      Verdict (ReadsManifest release world words arguments manifest)
        (fun m => ∀ dependency ∈ m.dependencies, Met installed dependency)
        (TellsDependencies installed) outcome := by
  have ends := ends_of_run accepted returns
  cases command : arguments.command with
  | versions range versions => exact verdict_of_versions accepted ends command
  | dependencies manifest installed => exact verdict_of_dependencies accepted ends command

theorem exists_of_exitCode {result : Except Fault Outcome} {code : Nat}
    (ends : (result.map Outcome.exitCode).toOption = some code) :
    ∃ outcome, result = .ok outcome ∧ outcome.exitCode = code := by
  cases result with
  | error fault => cases ends
  | ok outcome => exact ⟨outcome, rfl, Option.some.inj ends⟩

/-- A version that is given twice, with the flag behind the command, and a dependency for which
two versions are given, of which only the last is in the range. -/
theorem run_verdict_of_repetitions :
    (∃ words arguments outcome,
      words = ["match", "^1.2.3", "1.3.0-rc", "2.0.0", "1.3.0-rc", "--include-prerelease"] ∧
        Arguments.read .earlier words = .ok arguments ∧
          run .earlier ⟨.empty, .empty⟩ words = .ok outcome ∧
          outcome.exitCode = 10 ∧ ∃ found,
            ReadsVersions .earlier ⟨.empty, .empty⟩ words arguments "^1.2.3"
              ["1.3.0-rc", "2.0.0", "1.3.0-rc"] found ∧
                ¬IncludesAll ["1.3.0-rc", "2.0.0", "1.3.0-rc"] found) ∧
      ∃ world words arguments outcome,
        words = ["deps", "m.json", "--installed", "core=0.9.0", "--installed=core=1.4.0"] ∧
          Arguments.read .later words = .ok arguments ∧ run .later world words = .ok outcome ∧
            outcome.exitCode = 0 ∧ ∃ m, ReadsManifest .later world words arguments "m.json" m ∧
              ∀ dependency ∈ m.dependencies,
                Met [some ("core", "0.9.0"), some ("core", "1.4.0")] dependency := by
  constructor
  · have ends : ((run .earlier ⟨.empty, .empty⟩ ["match", "^1.2.3", "1.3.0-rc", "2.0.0",
        "1.3.0-rc", "--include-prerelease"]).map Outcome.exitCode).toOption = some 10 := by
      decide +kernel
    obtain ⟨outcome, returns, code⟩ := exists_of_exitCode ends
    have verdict := run_verdict _ _ _ ⟨none, true, false,
      .versions "^1.2.3" ["1.3.0-rc", "2.0.0", "1.3.0-rc"], []⟩ outcome rfl returns
    exact ⟨_, _, outcome, rfl, rfl, returns, code, verdict.mismatched.mp code⟩
  · let manifest : List UInt8 := ("\x7b\"name\": \"timer\", \"version\": \"1.0.0\", " ++
      "\"authors\": [\"us\"], \"description\": \"\", " ++
      "\"dependencies\": \x7b\"core\": \"^1\"\x7d\x7d").toList.map fun c => c.toNat.toUInt8
    let world : World := ⟨{ entries := [(["m.json"], .file manifest)] }, .empty⟩
    have ends : ((run .later world ["deps", "m.json", "--installed", "core=0.9.0",
        "--installed=core=1.4.0"]).map Outcome.exitCode).toOption = some 0 := by
      decide +kernel
    obtain ⟨outcome, returns, code⟩ := exists_of_exitCode ends
    have verdict := run_verdict _ _ _ ⟨none, false, false,
      .dependencies "m.json" [some ("core", "0.9.0"), some ("core", "1.4.0")], []⟩ outcome rfl
        returns
    exact ⟨_, _, _, outcome, rfl, rfl, returns, code, verdict.matched.mp code⟩

end CommandLine

end VersionRange
