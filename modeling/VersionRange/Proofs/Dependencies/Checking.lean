import VersionRange.Dependencies.Report
import VersionRange.Proofs.Noting
import VersionRange.Proofs.Version.Readable

/-!
# What a check of dependencies finds out

For every dependency there is one finding, in the order of declaration.  It depends on what
is installed under the name of the dependency and on nothing else, and so does the warning
that the journal may have about it.  A report counts the findings by their status.
-/

namespace VersionRange

open Fallible

namespace Value

/-- The value that a path of keys leads to in a document. -/
def at? : Value → List String → Option Value
  | document, [] => some document
  | .object entries, name :: path => (Value.entry? name entries).bind fun value => value.at? path
  | _, _ :: _ => none

end Value

namespace Finding

/-- What is installed under a name. -/
def installed? (installed : List (Value × Value)) (name : Value) : Option Value :=
  (installed.find? fun entry => entry.1.sameKey name).map Prod.snd

/-- A value stands for a version if it is one or a text that is read as one. -/
inductive Stands : Value → Version → Prop
  | version (v : Version) : Stands (.version v) v
  | text {text : String} {v : Version} (read : Version.parse text = .ok v) : Stands (.text text) v

/-- Why a value is refused as a version. -/
def refusal? : Value → Option VersionFault
  | .version _ => none
  | other =>
    match Version.ofValue other with
    | .error (.version fault) => some fault
    | _ => none

/-- The warning about what is installed under a name. -/
def warning? (installed : List (Value × Value)) (name : Value) : Option JournalRecord :=
  ((installed? installed name).bind refusal?).map (.ignoredInstalled name)

/-- What a finding says about the dependency that it answers for. -/
structure Answers (installed : List (Value × Value)) (dependency : Value × Range)
    (finding : Finding) : Prop where
  name : finding.name = dependency.1
  required : finding.required = dependency.2.text
  given : finding.installed = (installed? installed dependency.1).map Value.plain
  missing : finding.status = .missing ↔ installed? installed dependency.1 = none
  ok : finding.status = .ok ↔ ∃ value v, installed? installed dependency.1 = some value ∧
    Stands value v ∧ dependency.2.includes v = true
  incompatible : finding.status = .incompatible ↔ ∃ value,
    installed? installed dependency.1 = some value ∧
      ∀ v, Stands value v → dependency.2.includes v = false
  warned : (warning? installed dependency.1).isSome = true ↔ ∃ value,
    installed? installed dependency.1 = some value ∧ ∀ v, ¬Stands value v

/-- The version that an installed value stands for, aside from the journal. -/
def taken : Value → Except Fault (Option Version)
  | .version v => .ok (some v)
  | other =>
    match Version.ofValue other with
    | .ok v => .ok (some v)
    | .error (.version _) => .ok none
    | .error fault => .error fault

theorem Stands.unique {value : Value} {v w : Version} (first : Stands value v)
    (second : Stands value w) : v = w := by
  cases first with
  | version => cases second; rfl
  | text read =>
      cases second with
      | text other => exact Except.ok.inj (read.symm.trans other)

/-- A value stands for a version, or is refused as one, or has a number that is too long to
be read. -/
theorem taken_cases (value : Value) :
    (∃ v, Stands value v ∧ taken value = .ok (some v) ∧ refusal? value = none) ∨
      (∃ cause, (∀ v, ¬Stands value v) ∧ taken value = .ok none ∧
        refusal? value = some cause) ∨
      ∃ text cause, value = .text text ∧ Version.parse text = .error (.numeral cause) ∧
        taken value = .error (.numeral cause) ∧ refusal? value = none := by
  cases value with
  | version v => exact .inl ⟨v, .version v, rfl, rfl⟩
  | text text =>
      cases read : Version.parse text with
      | ok v => exact .inl ⟨v, .text read, by simp [taken, refusal?, Version.ofValue, read]⟩
      | error fault =>
          rcases Version.fault_of_parseChars read with ⟨cause, rfl⟩ | ⟨cause, rfl⟩
          · refine .inr (.inl ⟨cause, ?_, by simp [taken, refusal?, Version.ofValue, read]⟩)
            intro v stands
            cases stands with
            | text other => simp [read] at other
          · exact .inr (.inr ⟨text, cause, rfl, read,
              by simp [taken, refusal?, Version.ofValue, read]⟩)
  | _ => exact .inr (.inl ⟨_, (by intro v stands; cases stands), rfl, rfl⟩)

theorem notes_installedVersion (name value : Value) :
    (installedVersion name value).Notes (taken value)
      ((refusal? value).map (.ignoredInstalled name)).toList := by
  have refused (fault : VersionFault) :
      (do Noting.note (.ignoredInstalled name fault); return none : Noting (Option Version)).Notes
        (.ok none) [.ignoredInstalled name fault] :=
    (Noting.notes_note _).bind_ok (Noting.notes_pure none)
  cases value with
  | version v => exact Noting.notes_pure (some v)
  | text text =>
      cases read : Version.parse text with
      | ok v =>
          simp only [installedVersion, taken, refusal?, Version.ofValue, read]
          exact Noting.notes_pure (some v)
      | error fault =>
          rcases Version.fault_of_parseChars read with ⟨cause, rfl⟩ | ⟨cause, rfl⟩
          · simp only [installedVersion, taken, refusal?, Version.ofValue, read]
            exact refused cause
          · simp only [installedVersion, taken, refusal?, Version.ofValue, read]
            exact Noting.notes_lift (.error (.numeral cause))
  | _ => exact refused _

/-- The finding about a dependency, aside from the journal. -/
def answer (installed : List (Value × Value)) (dependency : Value × Range) :
    Except Fault Finding :=
  match installed? installed dependency.1 with
  | none => .ok ⟨dependency.1, dependency.2.text, none, .missing⟩
  | some value => do
    let version ← taken value
    checkWritable value
    return ⟨dependency.1, dependency.2.text, some value.plain,
      if version.any dependency.2.includes then .ok else .incompatible⟩

theorem notes_ofDependency (installed : List (Value × Value)) (dependency : Value × Range) :
    (ofDependency installed dependency.1 dependency.2).Notes (answer installed dependency)
      (warning? installed dependency.1).toList := by
  unfold ofDependency answer warning? installed?
  cases found : installed.find? fun entry => entry.1.sameKey dependency.1 with
  | none => exact Noting.notes_pure _
  | some entry =>
      obtain ⟨key, value⟩ := entry
      have first := notes_installedVersion dependency.1 value
      simp only [Option.map_some, Option.bind_some]
      cases outcome : taken value with
      | error fault =>
          rw [outcome] at first
          exact first.bind_error _
      | ok version =>
          rw [outcome] at first
          rw [ok_bind, ← List.append_nil (Option.toList _)]
          apply first.bind_ok
          have written := Noting.notes_lift (checkWritable value)
          cases writable : checkWritable value with
          | error fault =>
              rw [writable] at written
              exact written.bind_error _
          | ok _ =>
              rw [writable] at written
              exact written.bind_ok (Noting.notes_pure _)

theorem answers_of_answer {installed : List (Value × Value)} {dependency : Value × Range}
    {finding : Finding} (found : answer installed dependency = .ok finding) :
    Answers installed dependency finding := by
  unfold answer at found
  cases entry : installed? installed dependency.1 with
  | none =>
      rw [entry] at found
      cases found
      exact ⟨rfl, rfl, by rw [entry]; rfl, by simp [entry], by simp [entry], by simp [entry],
        by simp [entry, warning?]⟩
  | some value =>
      simp only [entry, bind_eq_ok_iff, pure_eq_ok, Except.ok.injEq] at found
      obtain ⟨version, outcome, -, -, rfl⟩ := found
      rcases taken_cases value with ⟨v, stands, isTaken, quiet⟩ | ⟨cause, none, isTaken, told⟩ |
        ⟨text, cause, -, -, refused, -⟩
      · obtain rfl := Except.ok.inj (isTaken.symm.trans outcome)
        have only (w : Version) : Stands value w ↔ w = v :=
          ⟨fun other => other.unique stands, fun same => same ▸ stands⟩
        cases included : dependency.2.includes v <;>
          constructor <;> simp [entry, only, included, warning?, quiet]
      · obtain rfl := Except.ok.inj (isTaken.symm.trans outcome)
        constructor <;> simp [entry, none, warning?, told]
      · rw [refused] at outcome
        cases outcome

variable {m : Manifest} {installed : List (Value × Value)}

/-- A check that succeeds, with its findings and what it notes. -/
theorem notes_ofManifest {findings : List Finding}
    (succeeds : m.dependencies.mapM (answer installed) = .ok findings) :
    (ofManifest m installed).Notes (.ok findings)
      (m.dependencies.filterMap fun dependency => warning? installed dependency.1) := by
  rw [List.filterMap_eq_flatMap_toList]
  exact Noting.notes_mapM (notes_ofDependency installed) succeeds

theorem comesTo_ofManifest (m : Manifest) (installed : List (Value × Value)) :
    (ofManifest m installed).ComesTo (m.dependencies.mapM (answer installed)) :=
  Noting.comesTo_mapM (fun dependency => (notes_ofDependency installed dependency).comesTo) _

/-- Whether an entry is about a plugin that the manifest depends on. -/
def isDeclared (m : Manifest) (entry : Value × Value) : Bool :=
  m.dependencies.any fun dependency => entry.1.sameKey dependency.1

theorem find?_declared {dependency : Value × Range} (member : dependency ∈ m.dependencies) :
    (installed.filter (isDeclared m)).find? (fun entry => entry.1.sameKey dependency.1) =
      installed.find? fun entry => entry.1.sameKey dependency.1 := by
  rw [List.find?_filter]
  congr 1
  funext entry
  by_cases same : entry.1.sameKey dependency.1 = true
  · have declared : isDeclared m entry = true := List.any_eq_true.mpr ⟨dependency, member, same⟩
    simp [same, declared]
  · simp [same]

/-- The check looks at nothing but the entries that are about dependencies. -/
theorem ofManifest_congr {others : List (Value × Value)}
    (same : others.filter (isDeclared m) = installed.filter (isDeclared m)) :
    ofManifest m others = ofManifest m installed := by
  apply Noting.mapM_congr
  intro dependency member
  have agrees : others.find? (fun entry => entry.1.sameKey dependency.1) =
      installed.find? fun entry => entry.1.sameKey dependency.1 := by
    rw [← find?_declared member, same, find?_declared member]
  simp only [ofDependency, agrees]

end Finding

namespace Report

theorem length_problems_filter (report : Report) (status : Status) (wrong : status ≠ .ok) :
    (report.problems.filter fun finding => finding.status == status).length =
      report.count status := by
  rw [problems, List.filter_filter, count]
  congr 2
  funext finding
  cases isStatus : finding.status == status with
  | false => rfl
  | true =>
      have same : finding.status = status := by simpa using isStatus
      simp [Finding.isOk, same, wrong]

theorem length_problems (report : Report) :
    report.problems.length = report.count .missing + report.count .incompatible := by
  have split := report.count_total
  have rest := List.length_eq_length_filter_add (l := report.findings) Finding.isOk
  change report.findings.length = report.count .ok + report.problems.length at rest
  omega

/-- The totals of a report count its findings by their status. -/
structure Counts (report : Report) : Prop where
  dependencies : report.totals.dependencies = report.findings.length
  ok : report.totals.ok = report.count .ok
  missing : report.totals.missing = report.count .missing
  incompatible : report.totals.incompatible = report.count .incompatible
  total : report.totals.dependencies =
    report.totals.ok + report.totals.missing + report.totals.incompatible
  problems : report.hasProblems = true ↔ 0 < report.totals.missing + report.totals.incompatible

theorem counts (report : Report) : report.Counts := by
  have total := report.count_total
  have wrong := report.length_problems
  have ok : report.totals.ok = report.count .ok := by
    simp only [totals]
    omega
  have missing : report.totals.missing = report.count .missing :=
    report.length_problems_filter .missing (by decide)
  have incompatible : report.totals.incompatible = report.count .incompatible :=
    report.length_problems_filter .incompatible (by decide)
  refine ⟨rfl, ok, missing, incompatible, ?_, ?_⟩
  · rw [ok, missing, incompatible, total]
    rfl
  · rw [missing, incompatible, ← wrong, List.length_pos_iff, hasProblems]
    simp

/-- The document says what was found out about one dependency. -/
structure Tells (finding : Finding) (document : Value) : Prop where
  name : document.at? ["name"] = some finding.name
  required : document.at? ["required"] = some (.text finding.required)
  installed : document.at? ["installed"] = some ((finding.installed.map Value.text).getD .null)
  status : document.at? ["status"] = some (.text finding.status.text)

theorem tells_findingDocument (finding : Finding) : Tells finding (findingDocument finding) :=
  ⟨rfl, rfl, rfl, rfl⟩

/-- The document sums up the findings about a plugin: each is told in its turn, each status is
counted, and there are problems just if something is missing or incompatible. -/
structure SumsUp (m : Manifest) (findings : List Finding) (document : Value) : Prop where
  plugin : document.at? ["plugin"] = some (.text m.name)
  version : document.at? ["version"] = some (.text m.version.text)
  dependencies : ∃ told, document.at? ["dependencies"] = some (.list told) ∧
    List.Forall₂ Tells findings told
  total : document.at? ["totals", "dependencies"] = some (.int findings.length)
  counted (status : Status) : document.at? ["totals", status.text] =
    some (.int (findings.countP fun finding => finding.status == status))
  split : findings.length = findings.countP (fun finding => finding.status == .ok) +
    findings.countP (fun finding => finding.status == .missing) +
    findings.countP (fun finding => finding.status == .incompatible)
  hasProblems : ∃ problems, document.at? ["hasProblems"] = some (.bool problems) ∧
    (problems = true ↔ 0 < findings.countP (fun finding => finding.status == .missing) +
      findings.countP (fun finding => finding.status == .incompatible))

theorem count_ofFindings (m : Manifest) (findings : List Finding) (status : Status) :
    (ofFindings m findings).count status =
      findings.countP fun finding => finding.status == status :=
  List.countP_eq_length_filter.symm

theorem sumsUp_toDocument (m : Manifest) (findings : List Finding) :
    SumsUp m findings (ofFindings m findings).toDocument := by
  have counts := (ofFindings m findings).counts
  have split := (ofFindings m findings).count_total
  simp only [count_ofFindings] at split
  refine ⟨rfl, rfl, ⟨_, rfl, ?_⟩, rfl, fun status => ?_, split.symm, ⟨_, rfl, ?_⟩⟩
  · exact List.forall₂_map_right_iff.mpr (List.forall₂_same.mpr fun finding _ =>
      tells_findingDocument finding)
  · rw [← count_ofFindings m]
    cases status with
    | ok => exact congrArg (fun n : Nat => some (Value.int n)) counts.ok
    | missing => exact congrArg (fun n : Nat => some (Value.int n)) counts.missing
    | incompatible => exact congrArg (fun n : Nat => some (Value.int n)) counts.incompatible
  · rw [← count_ofFindings m, ← count_ofFindings m, ← counts.missing, ← counts.incompatible]
    exact counts.problems

/-- A check that returns has one finding for each dependency, in the order of declaration,
and one warning for each installed version that cannot be read; what is installed besides
has no influence.  The document of the report tells these findings and counts them. -/
theorem sums_up_check (m : Manifest) (installed : List (Value × Value)) (findings : List Finding)
    (checked : (Noting.collect (Finding.ofManifest m installed)).1 = .ok findings) :
    List.Forall₂ (Finding.Answers installed) m.dependencies findings ∧
      (Noting.collect (Finding.ofManifest m installed)).2 =
        m.dependencies.filterMap (fun dependency =>
          Finding.warning? installed dependency.1) ∧
      (∀ others, others.filter (Finding.isDeclared m) = installed.filter (Finding.isDeclared m) →
        Finding.ofManifest m others = Finding.ofManifest m installed) ∧
      findings.length = m.dependencies.length ∧
        SumsUp m findings (ofFindings m findings).toDocument := by
  rw [(Finding.comesTo_ofManifest m installed).collect] at checked
  have each := mapM_eq_ok_iff.mp checked
  refine ⟨each.imp fun _ _ => Finding.answers_of_answer, ?_,
    fun others same => Finding.ofManifest_congr same, each.length_eq.symm,
    sumsUp_toDocument m findings⟩
  rw [(Finding.notes_ofManifest checked).collect]

/-- A dependency of each status, one whose installed version cannot be read, and a plugin
that is installed without being needed. -/
theorem sums_up_check_of_each_status :
    ∃ m installed findings,
      (Noting.collect (Finding.ofManifest m installed)).1 = .ok findings ∧
        findings.map Finding.status = [.ok, .incompatible, .missing, .incompatible] ∧
          (Noting.collect (Finding.ofManifest m installed)).2.length = 1 ∧
            (ofFindings m findings).toDocument.at? ["totals", "incompatible"] = some (.int 2) ∧
              (ofFindings m findings).toDocument.at? ["hasProblems"] = some (.bool true) := by
  let range : Range := ⟨[[.exact .greaterEqual (.release 1 2 0) {}]]⟩
  let m : Manifest := ⟨"timer", .release 1 4 0, ["us"], "",
    [(.text "core", range), (.text "ui", range), (.text "maps", range), (.text "log", range)]⟩
  let installed : List (Value × Value) :=
    [(.text "extra", .text "x"), (.text "core", .text "1.8.2"), (.text "ui", .text "latest"),
      (.text "log", .version (.release 1 0 0))]
  let findings : List Finding :=
    [⟨.text "core", ">=1.2.0", some "1.8.2", .ok⟩,
      ⟨.text "ui", ">=1.2.0", some "latest", .incompatible⟩,
      ⟨.text "maps", ">=1.2.0", none, .missing⟩,
      ⟨.text "log", ">=1.2.0", some "1.0.0", .incompatible⟩]
  have checked : (Noting.collect (Finding.ofManifest m installed)).1 = .ok findings := by rfl
  obtain ⟨-, journal, -, -, sums⟩ := sums_up_check m installed findings checked
  obtain ⟨problems, told, agrees⟩ := sums.hasProblems
  refine ⟨m, installed, findings, checked, rfl, ?_, sums.counted .incompatible, ?_⟩
  · rw [journal]
    rfl
  · rw [told, agrees.mpr (by decide)]

end Report

end VersionRange
