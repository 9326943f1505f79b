import VersionRange.Dependencies.Finding

/-!
# Reports

A report sums up the findings about the dependencies of one plugin.
-/

namespace VersionRange

structure Report where
  plugin : String
  version : String
  findings : List Finding

/-- How many findings there are, and how many with each status. -/
structure Totals where
  dependencies : Nat
  ok : Nat
  missing : Nat
  incompatible : Nat
  deriving DecidableEq, Repr

namespace Report

def ofFindings (manifest : Manifest) (findings : List Finding) : Report :=
  ⟨manifest.name, manifest.version.text, findings⟩

/-- The number of findings with the given status. -/
def count (report : Report) (status : Status) : Nat :=
  (report.findings.filter fun finding => finding.status == status).length

/-- Every finding has one of the three statuses. -/
theorem count_total (report : Report) :
    report.count .ok + report.count .missing + report.count .incompatible =
      report.findings.length := by
  obtain ⟨plugin, version, findings⟩ := report
  simp only [count]
  induction findings with
  | nil => rfl
  | cons finding rest ih =>
    rcases finding with ⟨name, required, installed, status⟩
    cases status <;> simp_all <;> omega

/-- The findings that something is wrong with. -/
def problems (report : Report) : List Finding :=
  report.findings.filter fun finding => !finding.isOk

def hasProblems (report : Report) : Bool :=
  !report.problems.isEmpty

/-- The totals: what is wrong is counted, and what is not wrong is the rest. -/
def totals (report : Report) : Totals where
  dependencies := report.findings.length
  ok := report.findings.length - report.problems.length
  missing := (report.problems.filter fun finding => finding.status == .missing).length
  incompatible := (report.problems.filter fun finding => finding.status == .incompatible).length

def findingDocument (finding : Finding) : Value :=
  .object
    [(.text "name", finding.name), (.text "required", .text finding.required),
     (.text "installed", (finding.installed.map Value.text).getD .null),
     (.text "status", .text finding.status.text)]

/-- The report as a document. -/
def toDocument (report : Report) : Value :=
  .object
    [(.text "plugin", .text report.plugin), (.text "version", .text report.version),
     (.text "hasProblems", .bool report.hasProblems),
     (.text "dependencies", .list (report.findings.map findingDocument)),
     (.text "totals", .object
       [(.text "dependencies", .int report.totals.dependencies),
        (.text "ok", .int report.totals.ok),
        (.text "missing", .int report.totals.missing),
        (.text "incompatible", .int report.totals.incompatible)])]

end Report

end VersionRange
