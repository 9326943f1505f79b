import VersionRange.Proofs.Manifest.Escapes
import VersionRange.Settings

/-!
# How loading settings can end

Loading gives settings whose cache size is not negative or a fault of settings, but for three
things of which no such fault is made: a path that cannot be looked up, for another reason than
that nothing is there, bytes that are no UTF-8, and a JSON text that its reader gives up on, for
a number that is too long or for values that are nested too deeply.
-/

namespace VersionRange

open Fallible

/-- A fault that is none of settings. -/
def Fault.OutsideSettings (fault : Fault) : Prop :=
  ∀ cause, fault ≠ .settings cause

namespace Settings

/-- Settings with a cache size that is not negative, or a fault of settings. -/
def Documented (outcome : Except Fault Settings) : Prop :=
  (∃ settings, outcome = .ok settings ∧ 0 ≤ settings.cacheSize) ∨
    ∃ cause, outcome = .error (.settings cause)

/-- The faults that loading from a path ends with although they are none of settings, where
`nesting` lists and objects may be open at once in JSON. -/
inductive Escapes (nesting : Nat) (files : Files) (path : Path) : Fault → Prop
  | lookUp {reason : FileReason} (named : files.CanBeNamed path)
      (refused : files.find path = .error reason) (there : reason.isAbsence = false) :
      Escapes nesting files path (.file ⟨reason, path.text⟩)
  | bytes {bytes : List UInt8} {fault : Utf8Fault} (named : files.CanBeNamed path)
      (holds : files.read path = .ok bytes) (noText : decodeUtf8 bytes = .error fault) :
      Escapes nesting files path (.encoding fault)
  | json {bytes : List UInt8} {chars : List Char} {fault : Fault} (named : files.CanBeNamed path)
      (holds : files.read path = .ok bytes) (isText : contentChars bytes = .ok chars)
      (stops : Json.readCharsWithin nesting chars = .error fault)
      (long : (∃ cause, fault = .numeral cause) ∨ ∃ container, fault = .nesting container) :
      Escapes nesting files path fault

section Entries

/-- Whether the entries include prereleases. -/
def prereleaseOf (entries : List (Value × Value)) : Except Fault Bool :=
  match (Value.entry? "includePrerelease" entries).getD (.bool false) with
  | .bool b => .ok b
  | _ => .error (.settings .includePrerelease)

/-- How many ranges the entries let a session remember. -/
def cacheSizeOf (entries : List (Value × Value)) : Except Fault Int :=
  match (Value.entry? "cacheSize" entries).getD (.int 256) with
  | .int n => if 0 ≤ n then .ok n else .error (.settings .cacheSize)
  | _ => .error (.settings .cacheSize)

theorem ofEntries_eq (entries : List (Value × Value)) :
    ofEntries entries = prereleaseOf entries >>= fun includePrerelease =>
      cacheSizeOf entries >>= fun cacheSize =>
        if (unknownKeys entries).isEmpty then .ok ⟨includePrerelease, cacheSize⟩
        else .error (.settings (.unknownKeys (unknownKeys entries))) := by
  unfold ofEntries prereleaseOf cacheSizeOf
  cases (Value.entry? "includePrerelease" entries).getD (.bool false) with
  | bool b =>
      cases (Value.entry? "cacheSize" entries).getD (.int 256) with
      | int n =>
          by_cases positive : 0 ≤ n
          · simp only [positive, if_true, ok_bind]
            cases (unknownKeys entries).isEmpty <;> rfl
          · simp only [positive, if_false, error_bind]
            rfl
      | _ => rfl
  | _ => rfl

theorem documented_ofEntries (entries : List (Value × Value)) :
    Documented (ofEntries entries) := by
  have prerelease : (∃ b, prereleaseOf entries = .ok b) ∨
      prereleaseOf entries = .error (.settings .includePrerelease) := by
    unfold prereleaseOf
    split
    · exact .inl ⟨_, rfl⟩
    · exact .inr rfl
  have size : (∃ n, cacheSizeOf entries = .ok n ∧ 0 ≤ n) ∨
      cacheSizeOf entries = .error (.settings .cacheSize) := by
    unfold cacheSizeOf
    split
    next n _ =>
      by_cases positive : 0 ≤ n
      · exact .inl ⟨n, if_pos positive, positive⟩
      · exact .inr (if_neg positive)
    · exact .inr rfl
  rw [ofEntries_eq]
  rcases prerelease with ⟨b, isBool⟩ | wrong
  · rw [isBool, ok_bind]
    rcases size with ⟨n, isSize, positive⟩ | wrong
    · rw [isSize, ok_bind]
      split
      · exact .inl ⟨_, rfl, positive⟩
      · exact .inr ⟨_, rfl⟩
    · rw [wrong]
      exact .inr ⟨_, rfl⟩
  · rw [wrong]
    exact .inr ⟨_, rfl⟩

theorem documented_override (environment : Environment) {settings : Settings}
    (positive : 0 ≤ settings.cacheSize) : Documented (override environment settings) := by
  unfold override
  split
  · exact .inl ⟨_, rfl, positive⟩
  · extract_lets word
    split
    · exact .inl ⟨_, rfl, positive⟩
    · split
      · exact .inl ⟨_, rfl, positive⟩
      · split
        · exact .inl ⟨_, rfl, positive⟩
        · exact .inr ⟨_, rfl⟩

theorem Documented.bind_override {outcome : Except Fault Settings} (documented : Documented outcome)
    (environment : Environment) : Documented (outcome >>= override environment) := by
  rcases documented with ⟨settings, rfl, positive⟩ | ⟨cause, rfl⟩
  · exact documented_override environment positive
  · exact .inr ⟨cause, rfl⟩

end Entries

section File

variable {nesting : Nat} {files : Files} {path : Path}

theorem present_of_unnamed (unnamed : ¬files.CanBeNamed path) :
    present files path = .ok false := by
  have blocked : ((files.unnameable? path).isSome || path.text.toList.contains '\x00') = true := by
    by_contra free
    simp only [Bool.not_eq_true, Bool.or_eq_false_iff, Option.isSome_eq_false_iff,
      Option.isNone_iff_eq_none, List.contains_eq_mem, decide_eq_false_iff_not] at free
    exact unnamed free
  rw [present, if_pos blocked]

theorem present_of_named (named : files.CanBeNamed path) :
    present files path =
      match files.find path with
      | .ok _ => .ok true
      | .error reason =>
        if reason.isAbsence then .ok false else .error (.file ⟨reason, path.text⟩) := by
  obtain ⟨nameable, noNul⟩ := named
  have free : ¬((files.unnameable? path).isSome || path.text.toList.contains '\x00') = true := by
    simp [nameable, noNul]
  exact if_neg free

/-- Looking a path up fails for every reason but the absence of a file. -/
theorem present_eq_error_iff {fault : Fault} :
    present files path = .error fault ↔
      files.CanBeNamed path ∧ ∃ reason, files.find path = .error reason ∧
        reason.isAbsence = false ∧ fault = .file ⟨reason, path.text⟩ := by
  by_cases named : files.CanBeNamed path
  · rw [present_of_named named]
    cases files.find path with
    | ok entry => simp
    | error reason =>
        simp only [Except.error.injEq, exists_eq_left']
        cases reason.isAbsence with
        | true => simp
        | false => simpa [named] using eq_comm
  · simp [present_of_unnamed named, named]

theorem find_of_read {bytes : List UInt8} (holds : files.read path = .ok bytes) :
    files.find path = .ok (.file bytes) := by
  unfold Files.read at holds
  split at holds
  next found =>
    cases holds
    exact found
  · cases holds
  · cases holds
  · cases holds

theorem readEntries_eq (nesting : Nat) (files : Files) (path : Path) :
    readEntries nesting files path =
      ((files.read path).mapError fun fault => .settings (.unreadable fault)) >>= fun bytes =>
        contentChars bytes >>= fun chars =>
          match Json.readCharsWithin nesting chars with
          | .ok (.object entries) => .ok entries
          | .ok _ => .error (.settings .notObject)
          | .error (.json fault) => .error (.settings (.badJson fault))
          | .error other => .error other :=
  rfl

/-- Reading the entries of a file that is there ends with a fault that is none of settings. -/
theorem escapes_of_readEntries {fault : Fault} (named : files.CanBeNamed path)
    (refused : readEntries nesting files path = .error fault) (outside : fault.OutsideSettings) :
    Escapes nesting files path fault := by
  rw [readEntries_eq] at refused
  rcases bind_eq_error_iff.mp refused with unread | ⟨bytes, holds, refused⟩
  · obtain ⟨cause, -, rfl⟩ := mapError_eq_error_iff.mp unread
    exact absurd rfl (outside _)
  have holds := mapError_eq_ok_iff.mp holds
  rcases bind_eq_error_iff.mp refused with noText | ⟨chars, isText, refused⟩
  · unfold contentChars at noText
    split at noText
    · cases noText
    next invalid =>
      cases noText
      exact .bytes named holds invalid
  · split at refused
    · cases refused
    · cases refused
      exact absurd rfl (outside _)
    · cases refused
      exact absurd rfl (outside _)
    next other notOffset stops =>
      cases refused
      refine .json named holds isText stops ?_
      exact (Manifest.fault_of_readChars stops).resolve_left fun ⟨cause, same⟩ =>
        notOffset cause same

end File

variable {nesting : Nat} {asked : Option String} {world : World}

theorem load_eq (nesting : Nat) (asked : Option String) (world : World) :
    loadWithin nesting asked world =
      present world.files (path asked world.environment).1 >>= fun there =>
        if there then
          readEntries nesting world.files (path asked world.environment).1 >>= fun entries =>
            ofEntries entries >>= override world.environment
        else if (path asked world.environment).2 then
          .error (.settings (.notFound (path asked world.environment).1.text))
        else override world.environment {} := by
  rfl

theorem cacheSize_of_documented {outcome : Except Fault Settings} {settings : Settings}
    (documented : Documented outcome) (made : outcome = .ok settings) :
    0 ≤ settings.cacheSize := by
  rcases documented with ⟨own, found, positive⟩ | ⟨cause, refused⟩
  · cases found.symm.trans made
    exact positive
  · cases refused.symm.trans made

theorem not_outside_of_documented {outcome : Except Fault Settings} {fault : Fault}
    (documented : Documented outcome) (ends : outcome = .error fault) :
    ¬fault.OutsideSettings := by
  intro outside
  rcases documented with ⟨settings, made, -⟩ | ⟨cause, refused⟩
  · cases made.symm.trans ends
  · cases refused.symm.trans ends
    exact outside cause rfl

theorem outside_of_escapes {files : Files} {path : Path} {fault : Fault}
    (escapes : Escapes nesting files path fault) : fault.OutsideSettings := by
  intro cause
  cases escapes with
  | lookUp | bytes => simp
  | json _ _ _ _ long => rcases long with ⟨_, rfl⟩ | ⟨_, rfl⟩ <;> simp

theorem load_of_escapes {fault : Fault}
    (escapes : Escapes nesting world.files (path asked world.environment).1 fault) :
    loadWithin nesting asked world = .error fault := by
  rw [load_eq]
  have there {bytes : List UInt8}
      (named : world.files.CanBeNamed (path asked world.environment).1)
      (holds : world.files.read (path asked world.environment).1 = .ok bytes) :
      present world.files (path asked world.environment).1 = .ok true := by
    rw [present_of_named named, find_of_read holds]
  cases escapes with
  | lookUp named refused isThere =>
      rw [present_eq_error_iff.mpr ⟨named, _, refused, isThere, rfl⟩, error_bind]
  | bytes named holds noText =>
      rw [there named holds, ok_bind, if_pos rfl, readEntries_eq, mapError_eq_ok_iff.mpr holds]
      simp [contentChars, noText]
  | json named holds isText stops long =>
      rw [there named holds, ok_bind, if_pos rfl, readEntries_eq, mapError_eq_ok_iff.mpr holds]
      rcases long with ⟨cause, rfl⟩ | ⟨container, rfl⟩ <;> simp [isText, stops]

theorem escapes_of_load {fault : Fault} (ends : loadWithin nesting asked world = .error fault)
    (outside : fault.OutsideSettings) :
    Escapes nesting world.files (path asked world.environment).1 fault := by
  rw [load_eq] at ends
  rcases bind_eq_error_iff.mp ends with refused | ⟨there, found, ends⟩
  · obtain ⟨named, reason, unfound, isThere, rfl⟩ := present_eq_error_iff.mp refused
    exact .lookUp named unfound isThere
  by_cases isThere : there = true
  · subst isThere
    rw [if_pos rfl] at ends
    have named : world.files.CanBeNamed (path asked world.environment).1 := by
      by_contra unnamed
      rw [present_of_unnamed unnamed] at found
      cases found
    rcases bind_eq_error_iff.mp ends with refused | ⟨entries, -, ends⟩
    · exact escapes_of_readEntries named refused outside
    · have documented := (documented_ofEntries entries).bind_override world.environment
      exact absurd outside (not_outside_of_documented documented ends)
  · rw [if_neg isThere] at ends
    split at ends
    · cases ends
      exact absurd rfl (outside _)
    · exact absurd outside (not_outside_of_documented (documented_override _ (by decide)) ends)

theorem cacheSize_of_load {settings : Settings}
    (made : loadWithin nesting asked world = .ok settings) : 0 ≤ settings.cacheSize := by
  rw [load_eq] at made
  obtain ⟨there, -, made⟩ := bind_eq_ok_iff.mp made
  split at made
  · obtain ⟨entries, -, made⟩ := bind_eq_ok_iff.mp made
    exact cacheSize_of_documented
      ((documented_ofEntries entries).bind_override world.environment) made
  · split at made
    · cases made
    · exact cacheSize_of_documented (documented_override _ (by decide)) made

/-- Loading ends as documented unless the path cannot be looked up, the file is no UTF-8 or its
JSON is given up on; in these cases it ends with the fault that is met there. -/
theorem load_documented_iff (nesting : Nat) (asked : Option String) (world : World) :
    (Documented (loadWithin nesting asked world) ↔
      ∀ fault, ¬Escapes nesting world.files (path asked world.environment).1 fault) ∧
      ∀ fault, Escapes nesting world.files (path asked world.environment).1 fault ↔
        loadWithin nesting asked world = .error fault ∧ fault.OutsideSettings := by
  have each (fault : Fault) :
      Escapes nesting world.files (path asked world.environment).1 fault ↔
        loadWithin nesting asked world = .error fault ∧ fault.OutsideSettings :=
    ⟨fun escapes => ⟨load_of_escapes escapes, outside_of_escapes escapes⟩,
      fun ⟨ends, outside⟩ => escapes_of_load ends outside⟩
  refine ⟨⟨fun documented fault escapes => ?_, fun noEscape => ?_⟩, each⟩
  · obtain ⟨ends, outside⟩ := (each fault).mp escapes
    exact not_outside_of_documented documented ends outside
  · cases outcome : loadWithin nesting asked world with
    | ok settings => exact .inl ⟨settings, rfl, cacheSize_of_load outcome⟩
    | error fault =>
        by_cases own : ∃ cause, fault = .settings cause
        · obtain ⟨cause, rfl⟩ := own
          exact .inr ⟨cause, rfl⟩
        · exact absurd (escapes_of_load outcome (not_exists.mp own)) (noEscape fault)

/-- A settings file of a single byte that no text begins with. -/
theorem not_documented_of_byte :
    ¬Documented (load none ⟨{ entries := [(["npm-range.json"], .file [0xff])] }, .empty⟩) := by
  have loaded : ∃ fault, load none ⟨{ entries := [(["npm-range.json"], .file [0xff])] }, .empty⟩ =
      .error (.encoding fault) :=
    ⟨_, rfl⟩
  obtain ⟨fault, ends⟩ := loaded
  exact fun documented => not_outside_of_documented documented ends fun cause => by simp

end Settings

end VersionRange
