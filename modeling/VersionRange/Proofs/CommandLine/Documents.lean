import VersionRange.CommandLine.Run
import VersionRange.Proofs.Canonical
import VersionRange.Proofs.Dependencies.Checking
import VersionRange.Proofs.Json.Rereading

/-!
# The documents that commands write

A command writes one object.  The texts of versions and of ranges are read back as they are,
because no character of them is half of a surrogate pair, and so the results for versions are
read back as they were written, each at its own text.  A report is read back with its findings
in their places and their number for each status.
-/

namespace VersionRange

open Fallible

theorem isStandIn_of_ascii {c : Char} (ascii : c.toNat < 0x80) : isStandIn c = false := by
  rcases Json.codePoint_cases c with ⟨half, value⟩ | ⟨whole, -⟩
  · have bounds := Json.isSurrogate_iff.mp half
    omega
  · exact whole

theorem isStandIn_of_isTokenChar {c : Char} (allowed : Group.isTokenChar c = true) :
    isStandIn c = false := by
  apply isStandIn_of_ascii
  simp only [Group.isTokenChar, Group.isOperatorChar, isVersionChar, Bool.or_eq_true,
    decide_eq_true_eq] at allowed
  rcases allowed with (((((rfl | rfl) | rfl) | rfl) | rfl) | rfl) | ((alphanum | rfl) | rfl) | rfl
  case inr.inl.inl.inl =>
    have range := toNat_of_isAlphanum alphanum
    omega
  all_goals decide

theorem Version.joined_text {v : Version} (readable : v.Readable) :
    Json.joined v.text = v.text := by
  apply Json.joined_of_no_standIn
  intro c member
  rw [toList_text] at member
  apply isStandIn_of_isTokenChar
  rw [Group.isTokenChar, isVersionChar_of_mem_chars readable member, Bool.or_true]

theorem Version.joined_of_parse {text : String} {v : Version} (read : parse text = .ok v) :
    Json.joined text = text := by
  obtain ⟨readable, rfl⟩ := parse_eq_ok_iff.mp read
  exact joined_text readable

theorem not_isStandIn_of_mem_intercalate {separator : String}
    (ascii : separator.toList.all (fun c => c.toNat < 0x80) = true) {pieces : List String}
    (each : ∀ piece ∈ pieces, ∀ c ∈ piece.toList, isStandIn c = false) {c : Char}
    (member : c ∈ (separator.intercalate pieces).toList) : isStandIn c = false := by
  rw [String.toList_intercalate] at member
  rcases mem_intercalate member with between | ⟨_, among, inside⟩
  · exact isStandIn_of_ascii (by simpa using List.all_eq_true.mp ascii c between)
  · obtain ⟨piece, isPiece, rfl⟩ := List.mem_map.mp among
    exact each piece isPiece c inside

theorem Range.joined_text {options : ParseOptions} {text : String} {range : Range}
    (read : parse options text = .ok range) : Json.joined range.text = range.text := by
  have stamped := stamped_of_parse read
  apply Json.joined_of_no_standIn
  intro c inRange
  apply not_isStandIn_of_mem_intercalate (by decide) ?_ inRange
  simp only [List.forall_mem_map]
  intro group isGroup c inGroup
  apply not_isStandIn_of_mem_intercalate (by decide) ?_ inGroup
  simp only [List.forall_mem_map]
  exact fun comparator isComparator c inComparator => isStandIn_of_isTokenChar
    (Comparator.isTokenChar_of_mem_text (stamped group isGroup comparator isComparator)
      inComparator)

namespace CommandLine

/-- What is written about versions: the range, and what it says about each of them. -/
def resultEntries (range : Range) (results : List (String × Value)) : List (String × Value) :=
  [("range", .text range.text), ("results", .object (Value.named results))]

/-- Each version has one result, which tells whether the range includes it. -/
structure Results (range : Range) (versions : List String) (results : List (String × Value)) :
    Prop where
  distinct : (results.map Prod.fst).Nodup
  each : ∀ text told, (text, told) ∈ results ↔
    text ∈ versions ∧ ∃ v, Version.parse text = .ok v ∧ told = .bool (range.includes v)

/-- What is found out about one version. -/
def result (range : Range) (text : String) : Except Fault (String × Bool) := do
  return (text, range.includes (← Version.parse text))

variable {range : Range}

theorem result_eq_ok_iff {text : String} {found : String × Bool} :
    result range text = .ok found ↔
      ∃ v, Version.parse text = .ok v ∧ found = (text, range.includes v) := by
  simp only [result, bind_eq_ok_iff, pure_eq_ok, Except.ok.injEq, eq_comm (b := found)]

theorem results_setEntry {before : List String} {own : List (String × Value)}
    (results : Results range before own) {text : String} {v : Version}
    (read : Version.parse text = .ok v) :
    ∃ next, Value.setEntry (.text text) (.bool (range.includes v)) (Value.named own) =
      Value.named next ∧ Results range (before ++ [text]) next := by
  obtain ⟨next, written, members, keys⟩ :=
    Value.exists_named_setEntry text (.bool (range.includes v)) own
  have said (name : String) (told : Value) (member : (name, told) ∈ next) :
      name ∈ before ++ [text] ∧
        ∃ v, Version.parse name = .ok v ∧ told = .bool (range.includes v) := by
    rcases members _ member with same | old
    · obtain ⟨rfl, rfl⟩ := Prod.mk.inj same
      exact ⟨by simp, v, read, rfl⟩
    · obtain ⟨among, said⟩ := (results.each name told).mp old
      exact ⟨List.mem_append_left _ among, said⟩
  refine ⟨next, written, ?_, fun name told => ⟨said name told, ?_⟩⟩
  · rw [keys]
    split
    · exact results.distinct
    next new =>
      refine List.nodup_append.mpr ⟨results.distinct, by simp, fun name member _ isText same => ?_⟩
      rw [← List.mem_singleton.mp isText, ← same] at new
      exact new member
  · rintro ⟨among, w, isRead, rfl⟩
    have isKey : name ∈ next.map Prod.fst := by
      have old (member : name ∈ before) : name ∈ own.map Prod.fst :=
        List.mem_map_of_mem ((results.each name _).mpr ⟨member, w, isRead, rfl⟩)
      rw [keys]
      split
      next isOld =>
        rcases List.mem_append.mp among with earlier | last
        · exact old earlier
        · rwa [List.mem_singleton.mp last]
      · exact List.mem_append.mpr ((List.mem_append.mp among).imp_left old)
    obtain ⟨⟨_, told⟩, member, rfl⟩ := List.mem_map.mp isKey
    obtain ⟨-, u, isOther, rfl⟩ := said _ told member
    cases isOther.symm.trans isRead
    exact member

/-- Setting results one by one. -/
theorem exists_results {before : List String} {own : List (String × Value)}
    (results : Results range before own) {versions : List String} {found : List (String × Bool)}
    (each : List.Forall₂ (fun text one => result range text = .ok one) versions found) :
    ∃ next, found.foldl
        (fun entries (text, included) => Value.setEntry (.text text) (.bool included) entries)
        (Value.named own) = Value.named next ∧ Results range (before ++ versions) next := by
  induction each generalizing before own with
  | nil => exact ⟨own, rfl, by simpa using results⟩
  | cons first _ ih =>
      obtain ⟨v, read, rfl⟩ := result_eq_ok_iff.mp first
      obtain ⟨between, written, longer⟩ := results_setEntry results read
      obtain ⟨next, all, whole⟩ := ih longer
      refine ⟨next, ?_, by simpa using whole⟩
      rw [← all, ← written]
      rfl

theorem read_resultEntries {options : ParseOptions} {asked : String}
    (read : Range.parse options asked = .ok range) {versions : List String}
    {results : List (String × Value)} (found : Results range versions results) {text : String}
    (written : Json.write (.object (Value.named (resultEntries range results))) = .ok text) :
    Json.read (text ++ "\n") = .ok (.object (Value.named (resultEntries range results))) := by
  have said {entry : String × Value} (member : entry ∈ results) :
      Json.joined entry.1 = entry.1 ∧ ∃ b, entry.2 = .bool b := by
    obtain ⟨-, v, isRead, told⟩ := (found.each entry.1 entry.2).mp member
    exact ⟨Version.joined_of_parse isRead, _, told⟩
  have plain : ∀ name ∈ results.map Prod.fst, Json.joined name = name :=
    List.forall_mem_map.mpr fun entry member => (said member).1
  have names : ∀ name ∈ (resultEntries range results).map Prod.fst, Json.joined name = name :=
    show ∀ name ∈ ["range", "results"], Json.joined name = name by decide
  have legible (n : Nat) :
      Json.Legible (n + 2) (.object (Value.named (resultEntries range results))) := by
    refine .named names (by simp [resultEntries]) ?_
    refine List.forall_mem_cons.mpr ⟨.scalar rfl, List.forall_mem_cons.mpr ⟨?_, by simp⟩⟩
    refine .named plain found.distinct fun entry member => ?_
    obtain ⟨-, b, told⟩ := said member
    exact .scalar (by rw [told]; rfl)
  have same : results.map (fun entry => (entry.1, Json.returned entry.2)) = results := by
    conv_rhs => rw [← List.map_id results]
    refine List.map_congr_left fun entry member => ?_
    obtain ⟨-, b, told⟩ := said member
    exact Prod.ext rfl (by rw [told, Json.returned_bool]; exact told.symm)
  rw [Json.read_write written (legible _), Json.returned_named names]
  simp only [resultEntries, List.map_cons, List.map_nil, Json.returned_text,
    Json.returned_named plain, same, Range.joined_text read]

/-- What is read of a finding that was written. -/
def findingEntries (finding : Finding) : List (String × Value) :=
  [("name", Json.returned finding.name), ("required", .text finding.required),
    ("installed", (finding.installed.map fun version => .text (Json.joined version)).getD .null),
    ("status", .text finding.status.text)]

/-- What is read of a report about a plugin: whether there are problems, each finding in its
place, and how many there are with each status. -/
def reportEntries (m : Manifest) (findings : List Finding) (problems : Bool) :
    List (String × Value) :=
  [("plugin", .text (Json.joined m.name)), ("version", .text m.version.text),
    ("hasProblems", .bool problems),
    ("dependencies", .list
      (findings.map fun finding => .object (Value.named (findingEntries finding)))),
    ("totals", .object (Value.named
      [("dependencies", .int findings.length), ("ok", .int (number .ok)),
        ("missing", .int (number .missing)), ("incompatible", .int (number .incompatible))]))]
where
  number (status : Status) : Nat :=
    (findings.filter fun finding => finding.status == status).length

/-- The keys of reports are read back. -/
theorem joined_keys : ∀ name ∈ ["name", "required", "installed", "status", "plugin", "version",
    "hasProblems", "dependencies", "totals", "ok", "missing", "incompatible"],
    Json.joined name = name := by
  decide

theorem legible_findingDocument (n : Nat) {finding : Finding} (isKey : finding.name.isKey = true) :
    Json.Legible (n + 1) (Report.findingDocument finding) := by
  refine .object ?_ ?_
  · simp [Json.keyName, joined_keys]
  · simp only [List.forall_mem_cons, List.not_mem_nil, false_implies, implies_true, and_true]
    refine ⟨.scalar isKey, .scalar rfl, .scalar ?_, .scalar rfl⟩
    cases finding.installed <;> rfl

theorem returned_findingDocument {finding : Finding}
    (plain : Json.joined finding.required = finding.required) :
    Json.returned (Report.findingDocument finding) =
      .object (Value.named (findingEntries finding)) := by
  have status : Json.joined finding.status.text = finding.status.text := by
    cases finding.status <;> decide
  cases given : finding.installed <;>
    simp [Report.findingDocument, findingEntries, Value.named, Json.keyName, joined_keys, plain,
      status, given]

theorem legible_toDocument (n : Nat) {report : Report}
    (keys : ∀ finding ∈ report.findings, finding.name.isKey = true) :
    Json.Legible (n + 3) report.toDocument := by
  refine .object ?_ ?_
  · simp [Json.keyName, joined_keys]
  · simp only [List.forall_mem_cons, List.not_mem_nil, false_implies, implies_true, and_true]
    refine ⟨.scalar rfl, .scalar rfl, .scalar rfl, .list ?_, .object ?_ ?_⟩
    · exact List.forall_mem_map.mpr fun finding member =>
        legible_findingDocument n (keys finding member)
    · simp [Json.keyName, joined_keys]
    · simp only [List.forall_mem_cons, List.not_mem_nil, false_implies, implies_true, and_true]
      exact ⟨.scalar rfl, .scalar rfl, .scalar rfl, .scalar rfl⟩

theorem returned_toDocument {m : Manifest} {findings : List Finding} (readable : m.version.Readable)
    (plain : ∀ finding ∈ findings, Json.joined finding.required = finding.required) :
    Json.returned (Report.ofFindings m findings).toDocument =
      .object (Value.named
        (reportEntries m findings (Report.ofFindings m findings).hasProblems)) := by
  have counts := (Report.ofFindings m findings).counts
  have version : Json.joined (Report.ofFindings m findings).version = m.version.text :=
    Version.joined_text readable
  have each : (Report.ofFindings m findings).findings.map (Json.returned ∘ Report.findingDocument) =
      findings.map fun finding => .object (Value.named (findingEntries finding)) :=
    List.map_congr_left fun finding member => returned_findingDocument (plain finding member)
  have keys := joined_keys
  simp only [List.forall_mem_cons] at keys
  simp only [Report.toDocument, List.map_cons, List.map_nil, List.map_map, Json.returned_object,
    Json.returned_list, Json.returned_text, Json.returned_bool, Json.returned_int, Json.keyName,
    keys, version, each, counts.dependencies, counts.ok, counts.missing, counts.incompatible]
  rfl

theorem read_reportEntries {m : Manifest} {findings : List Finding} (readable : m.version.Readable)
    (each : ∀ finding ∈ findings, finding.name.isKey = true ∧
      Json.joined finding.required = finding.required) {text : String}
    (written : Json.write (Report.ofFindings m findings).toDocument = .ok text) :
    Json.read (text ++ "\n") =
      .ok (.object (Value.named
        (reportEntries m findings (Report.ofFindings m findings).hasProblems))) := by
  have legible (n : Nat) : Json.Legible (n + 3) (Report.ofFindings m findings).toDocument :=
    legible_toDocument n fun finding member => (each finding member).1
  rw [Json.read_write written (legible _),
    returned_toDocument readable fun finding member => (each finding member).2]

end CommandLine

end VersionRange
