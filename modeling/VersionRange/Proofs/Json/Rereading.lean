import VersionRange.Proofs.Json.Documents
import VersionRange.Proofs.Json.Numbers
import VersionRange.Proofs.Json.Strings

/-!
# Rereading documents

A document that is written is read back part by part: the reader stops behind each part
exactly where the writer went on.  What is read differs from what was written only where JSON
has no other form for it: halves of surrogate pairs are joined, keys are texts, and a number
with a fraction is the one that its text is read as.
-/

namespace VersionRange

open Fallible Value

namespace Json

/-- What is read of a value that was written. -/
def returned : Value → Value
  | .float x => .float ((Binary64.ofText? x.text.toList).getD x)
  | .text s => .text (joined s)
  | .list items => .list (returnedItems items)
  | .object entries => .object (returnedEntries entries)
  | other => other
where
  returnedItems : List Value → List Value
    | [] => []
    | item :: rest => returned item :: returnedItems rest
  returnedEntries : List (Value × Value) → List (Value × Value)
    | [] => []
    | (key, value) :: rest =>
      (.text (joined (keyName key)), returned value) :: returnedEntries rest

@[simp]
theorem returned_null : returned .null = .null := by
  rw [returned]
  all_goals simp

@[simp]
theorem returned_bool (b : Bool) : returned (.bool b) = .bool b := by
  rw [returned]
  all_goals simp

@[simp]
theorem returned_int (n : Int) : returned (.int n) = .int n := by
  rw [returned]
  all_goals simp

@[simp]
theorem returned_text (s : String) : returned (.text s) = .text (joined s) := by
  rw [returned]

@[simp]
theorem returned_list (items : List Value) :
    returned (.list items) = .list (items.map returned) := by
  rw [returned]
  congr 1
  induction items with
  | nil => rfl
  | cons item rest ih => rw [returned.returnedItems, ih, List.map_cons]

@[simp]
theorem returned_object (entries : List (Value × Value)) :
    returned (.object entries) =
      .object (entries.map fun entry => (.text (joined (keyName entry.1)), returned entry.2)) := by
  rw [returned]
  congr 1
  induction entries with
  | nil => rfl
  | cons entry rest ih =>
      obtain ⟨key, value⟩ := entry
      rw [returned.returnedEntries, ih, List.map_cons]

/-- A value in which lists and objects stand at most `n` deep in one another and no two keys
of an object are read as the same text. -/
inductive Legible : Nat → Value → Prop
  | scalar {n : Nat} {value : Value} (single : value.isKey = true) : Legible n value
  | list {n : Nat} {items : List Value} (each : ∀ item ∈ items, Legible n item) :
      Legible (n + 1) (.list items)
  | object {n : Nat} {entries : List (Value × Value)}
      (distinct : (entries.map fun entry => joined (keyName entry.1)).Nodup)
      (each : ∀ entry ∈ entries, Legible n entry.2) : Legible (n + 1) (.object entries)

/-- An object whose keys are texts without halves of pairs is read back with its keys. -/
theorem returned_named {entries : List (String × Value)}
    (plain : ∀ name ∈ entries.map Prod.fst, joined name = name) :
    returned (.object (named entries)) =
      .object (named (entries.map fun entry => (entry.1, returned entry.2))) := by
  rw [returned_object, named, named, List.map_map, List.map_map]
  congr 1
  refine List.map_congr_left fun entry member => ?_
  simp only [Function.comp_apply, keyName, plain entry.1 (List.mem_map_of_mem member)]

theorem Legible.named {n : Nat} {entries : List (String × Value)}
    (plain : ∀ name ∈ entries.map Prod.fst, joined name = name)
    (distinct : (entries.map Prod.fst).Nodup) (each : ∀ entry ∈ entries, Legible n entry.2) :
    Legible (n + 1) (.object (Value.named entries)) := by
  refine .object ?_ fun entry member => ?_
  · rw [Value.named, List.map_map]
    have same : entries.map (fun entry => joined entry.1) = entries.map Prod.fst :=
      List.map_congr_left fun entry member => plain entry.1 (List.mem_map_of_mem member)
    exact same ▸ distinct
  · obtain ⟨own, among, rfl⟩ := List.mem_map.mp member
    exact each own among

/-- A character that a value may begin with. -/
structure Starts (c : Char) : Prop where
  noSpace : isSpace c = false
  noEnd : c ≠ ']'
  noMark : c ≠ '\uFEFF'

/-- A character that a value without parts may begin with. -/
structure StartsScalar (c : Char) : Prop extends Starts c where
  noList : c ≠ '['
  noObject : c ≠ '\x7b'

theorem startsScalar_of_isDigit {c : Char} (digit : c.isDigit = true) : StartsScalar c := by
  have differs {d : Char} (other : d.isDigit = false) : c ≠ d := by
    rintro rfl
    rw [digit] at other
    cases other
  refine ⟨⟨?_, differs rfl, differs rfl⟩, differs rfl, differs rfl⟩
  simp [isSpace, differs (d := ' ') rfl, differs (d := '\t') rfl, differs (d := '\n') rfl,
    differs (d := '\r') rfl]

theorem startsScalar_of_mem {c : Char} (member : c ∈ ['"', '-', 'n', 't', 'f', 'N', 'I']) :
    StartsScalar c := by
  have each : ∀ d ∈ ['"', '-', 'n', 't', 'f', 'N', 'I'],
      (isSpace d = false ∧ d ≠ ']' ∧ d ≠ '\uFEFF') ∧ d ≠ '[' ∧ d ≠ '\x7b' := by
    simp only [List.forall_mem_cons, List.not_mem_nil, false_implies, implies_true, and_true]
    decide
  obtain ⟨⟨noSpace, noEnd, noMark⟩, noList, noObject⟩ := each c member
  exact ⟨⟨noSpace, noEnd, noMark⟩, noList, noObject⟩

theorem exists_cons_stringText (s : String) : ∃ more, (stringText s).toList = '"' :: more :=
  ⟨s.toList.flatMap charEscape ++ ['"'], by simp [stringText]⟩

/-- A number begins with its sign or with a digit, and no name is in front of it. -/
theorem signed_cons (negative : Bool) {c : Char} (digit : c.isDigit = true) (more : List Char) :
    (∃ d rest, signText negative ++ c :: more = d :: rest ∧ StartsScalar d ∧ d ≠ '"') ∧
      names.find? (fun name => name.1.isPrefixOf (signText negative ++ c :: more)) = none := by
  have differs {d : Char} (other : d.isDigit = false) : d ≠ c := by
    rintro rfl
    rw [digit] at other
    cases other
  cases negative with
  | false =>
      refine ⟨⟨c, more, rfl, startsScalar_of_isDigit digit, (differs rfl).symm⟩, ?_⟩
      simp [names, signText, List.isPrefixOf, differs (d := 'n') rfl, differs (d := 't') rfl,
        differs (d := 'f') rfl, differs (d := 'N') rfl, differs (d := 'I') rfl,
        differs (d := '-') rfl]
  | true =>
      refine ⟨⟨'-', c :: more, rfl, startsScalar_of_mem (by decide), by decide⟩, ?_⟩
      simp [names, signText, List.isPrefixOf, differs (d := 'I') rfl]

theorem exists_cons_floatText (x : Binary64) :
    ∃ c more, (floatText x).toList = c :: more ∧ StartsScalar c := by
  cases x with
  | nan => exact ⟨'N', _, rfl, startsScalar_of_mem (by decide)⟩
  | infinite negative =>
      cases negative with
      | false => exact ⟨'I', _, rfl, startsScalar_of_mem (by decide)⟩
      | true => exact ⟨'-', _, rfl, startsScalar_of_mem (by decide)⟩
  | finite negative mantissa exponent =>
      obtain ⟨body, text, decimal⟩ := Binary64.isDecimal_text negative mantissa exponent
      obtain ⟨c, more, rfl, digit⟩ := decimal.head
      obtain ⟨d, rest, front, starts, -⟩ := (signed_cons negative digit more).1
      exact ⟨d, rest, text.trans front, starts⟩

theorem exists_cons_scalarText (value : Value) :
    ∃ c more, (scalarText value).toList = c :: more ∧ StartsScalar c := by
  have quoted (s : String) : ∃ c more, (stringText s).toList = c :: more ∧ StartsScalar c := by
    obtain ⟨more, text⟩ := exists_cons_stringText s
    exact ⟨'"', more, text, startsScalar_of_mem (by decide)⟩
  cases value with
  | null => exact ⟨'n', _, rfl, startsScalar_of_mem (by decide)⟩
  | bool b =>
      cases b with
      | false => exact ⟨'f', _, rfl, startsScalar_of_mem (by decide)⟩
      | true => exact ⟨'t', _, rfl, startsScalar_of_mem (by decide)⟩
  | int n =>
      obtain ⟨c, more, numeral, digit⟩ := (isRun_numeralChars n.natAbs).head
      obtain ⟨d, rest, front, starts, -⟩ := (signed_cons (decide (n < 0)) digit more).1
      exact ⟨d, rest, by rw [scalarText, toList_intText, numeral, front], starts⟩
  | float x => exact exists_cons_floatText x
  | _ => exact quoted _

variable {limit : Nat} {rest : List Char}

theorem readScalar_of_number {negative : Bool} {c : Char} {more : List Char}
    (digit : c.isDigit = true) (offset : Nat) :
    readScalar ⟨offset, signText negative ++ c :: more⟩ =
      readNumber ⟨offset, signText negative ++ c :: more⟩ := by
  obtain ⟨⟨d, behind, front, -, noQuote⟩, noName⟩ := signed_cons negative digit more
  unfold readScalar
  rw [if_neg (by rw [front]; simpa using noQuote), noName]

theorem readScalar_floatText (x : Binary64) (ends : Ends rest) (offset : Nat) :
    ∃ finish, readScalar ⟨offset, (floatText x).toList ++ rest⟩ =
      .ok (returned (.float x), ⟨finish, rest⟩) := by
  cases x with
  | nan => exact ⟨_, rfl⟩
  | infinite negative => cases negative <;> exact ⟨_, rfl⟩
  | finite negative mantissa exponent =>
      obtain ⟨body, text, decimal⟩ := Binary64.isDecimal_text negative mantissa exponent
      obtain ⟨y, number⟩ := Binary64.ofText?_decimal negative decimal
      obtain ⟨finish, read⟩ := readNumber_decimal decimal number ends offset
      obtain ⟨c, more, rfl, digit⟩ := decimal.head
      refine ⟨finish, ?_⟩
      rw [floatText, text, List.append_assoc, List.cons_append, readScalar_of_number digit,
        returned, text, number]
      · rwa [List.append_assoc, List.cons_append] at read
      · simp
      · simp

theorem readScalar_scalarText {value : Value} (single : value.isKey = true)
    (readable : scalarFault? value = none) (ends : Ends rest) (offset : Nat) :
    ∃ finish, readScalar ⟨offset, (scalarText value).toList ++ rest⟩ =
      .ok (returned value, ⟨finish, rest⟩) := by
  cases value with
  | null => exact ⟨_, rfl⟩
  | bool b => cases b <;> exact ⟨_, rfl⟩
  | int n =>
      have short : isWritableNumeral n.natAbs = true := by simpa [scalarFault?] using readable
      obtain ⟨finish, read⟩ := readNumber_intText short ends offset
      obtain ⟨c, more, numeral, digit⟩ := (isRun_numeralChars n.natAbs).head
      refine ⟨finish, ?_⟩
      change readScalar ⟨offset, (Value.intText n).toList ++ rest⟩ = .ok (.int n, _)
      rw [← read, toList_intText, numeral, List.append_assoc, List.cons_append,
        readScalar_of_number digit]
  | float x => exact readScalar_floatText x ends offset
  | text s =>
      obtain ⟨finish, read⟩ := readString_stringText s offset rest
      obtain ⟨more, text⟩ := exists_cons_stringText s
      refine ⟨finish, ?_⟩
      unfold readScalar
      rw [scalarText, if_pos (by rw [text]; rfl), read]
      rfl
  | bytes | date | moment | version => cases readable
  | list | pair | set | object | again => cases single

theorem skipSpace_of_not_isSpace {offset : Nat} {c : Char} (notSpace : isSpace c = false) :
    (Cursor.skipSpace ⟨offset, c :: rest⟩) = ⟨offset, c :: rest⟩ := by
  simp [Cursor.skipSpace, skipSpaceFrom, notSpace]

theorem skipSpace_append {spaces : List Char} (each : ∀ c ∈ spaces, isSpace c = true)
    (offset : Nat) :
    Cursor.skipSpace ⟨offset, spaces ++ rest⟩ =
      Cursor.skipSpace ⟨offset + spaces.length, rest⟩ := by
  induction spaces generalizing offset with
  | nil => rfl
  | cons c spaces ih =>
      have isSpace : isSpace c = true := each c List.mem_cons_self
      have later := ih (fun d member => each d (List.mem_cons_of_mem _ member)) (offset + 1)
      simp only [Cursor.skipSpace] at later ⊢
      rw [List.cons_append, skipSpaceFrom, if_pos isSpace, later, List.length_cons]
      congr 1
      omega

theorem isSpace_of_mem_newLine {depth : Nat} {c : Char} (member : c ∈ (newLine depth).toList) :
    isSpace c = true := by
  rw [newLine, String.toList_ofList] at member
  rcases List.mem_cons.mp member with rfl | space
  · rfl
  · rw [List.eq_of_mem_replicate space]
    rfl

/-- A line end and the spaces behind it are skipped. -/
theorem skipSpace_newLine (depth offset : Nat) {c : Char} (notSpace : isSpace c = false)
    (rest : List Char) :
    ∃ finish, Cursor.skipSpace ⟨offset, (newLine depth).toList ++ c :: rest⟩ =
      ⟨finish, c :: rest⟩ :=
  ⟨_, (skipSpace_append (fun _ => isSpace_of_mem_newLine) offset).trans
    (skipSpace_of_not_isSpace notSpace)⟩

theorem ends_newLine (depth : Nat) (rest : List Char) : Ends ((newLine depth).toList ++ rest) := by
  rw [newLine, String.toList_ofList]
  rintro c ⟨⟩
  decide

theorem ends_comma (rest : List Char) : Ends (',' :: rest) := by
  rintro c ⟨⟩
  decide

/-- The reader stops behind the text of the value and gives what is read of it. -/
def Rereads (limit n : Nat) (value : Value) : Prop :=
  ∀ (depth opened offset : Nat) ⦃steps : Nat⦄ ⦃rest : List Char⦄, fault? value = none →
    opened + n ≤ limit → (layOut depth value).toList.length ≤ steps → Ends rest →
      ∃ finish, readValue limit steps opened ⟨offset, (layOut depth value).toList ++ rest⟩ =
        .ok (returned value, ⟨finish, rest⟩)

theorem layOut_scalar {value : Value} (single : value.isKey = true) (depth : Nat) :
    layOut depth value = scalarText value := by
  cases value with
  | list | pair | set | object | again => cases single
  | _ => rfl

theorem fault?_scalar {value : Value} (single : value.isKey = true) :
    fault? value = scalarFault? value := by
  cases value with
  | list | pair | set | object | again => cases single
  | _ => rfl

theorem readValue_of_startsScalar {c : Char} (starts : StartsScalar c) (steps opened offset : Nat)
    (more : List Char) :
    readValue limit (steps + 1) opened ⟨offset, c :: more⟩ = readScalar ⟨offset, c :: more⟩ := by
  unfold readValue
  split
  next same => exact absurd (List.cons.inj same).1 starts.noList
  next same => exact absurd (List.cons.inj same).1 starts.noObject
  · rfl

theorem rereads_scalar (n : Nat) {value : Value} (single : value.isKey = true) :
    Rereads limit n value := by
  intro depth opened offset steps rest readable _ enough ends
  rw [fault?_scalar single] at readable
  rw [layOut_scalar single] at enough ⊢
  obtain ⟨finish, read⟩ := readScalar_scalarText single readable ends offset
  obtain ⟨c, more, text, starts⟩ := exists_cons_scalarText value
  rw [text] at enough read ⊢
  cases steps with
  | zero => simp at enough
  | succ steps => exact ⟨finish, (readValue_of_startsScalar starts ..).trans read⟩

theorem exists_cons_layOut (depth : Nat) (value : Value) :
    ∃ c more, (layOut depth value).toList = c :: more ∧ Starts c := by
  by_cases single : value.isKey = true
  · obtain ⟨c, more, text, starts⟩ := exists_cons_scalarText value
    exact ⟨c, more, by rw [layOut_scalar single, text], starts.toStarts⟩
  · have list : Starts '[' := by refine ⟨?_, ?_, ?_⟩ <;> decide
    have object : Starts '\x7b' := by refine ⟨?_, ?_, ?_⟩ <;> decide
    cases value with
    | list items =>
        cases items with
        | nil => exact ⟨'[', _, by simp [layOut]; rfl, list⟩
        | cons item items => exact ⟨'[', _, by simp [layOut]; rfl, list⟩
    | object entries =>
        cases entries with
        | nil => exact ⟨'\x7b', _, by simp [layOut]; rfl, object⟩
        | cons entry entries => exact ⟨'\x7b', _, by simp [layOut]; rfl, object⟩
    | pair => exact ⟨'[', _, by simp [layOut]; rfl, list⟩
    | set | again =>
        obtain ⟨c, more, text, starts⟩ := exists_cons_scalarText _
        exact ⟨c, more, text, starts.toStarts⟩
    | _ => exact absurd rfl single

theorem toList_layOut_list (depth : Nat) (item : Value) (items : List Value) :
    (layOut depth (.list (item :: items))).toList =
      '[' :: ((newLine (depth + 1)).toList ++ ((layOut.itemsText depth (item :: items)).toList ++
        ((newLine depth).toList ++ [']']))) := by
  simp [layOut]

theorem toList_layOut_object (depth : Nat) (entry : Value × Value)
    (entries : List (Value × Value)) :
    (layOut depth (.object (entry :: entries))).toList =
      '\x7b' :: ((newLine (depth + 1)).toList ++
        ((layOut.entriesText depth (entry :: entries)).toList ++
          ((newLine depth).toList ++ ['\x7d']))) := by
  simp [layOut]

/-- What stands in a list or an object, with what follows it up to the bracket. -/
theorem toList_itemsText_cons (depth : Nat) (item next : Value) (items : List Value) :
    (layOut.itemsText depth (item :: next :: items)).toList =
      (layOut (depth + 1) item).toList ++ ',' :: ((newLine (depth + 1)).toList ++
        (layOut.itemsText depth (next :: items)).toList) := by
  simp [layOut.itemsText]

theorem toList_entriesText_cons (depth : Nat) (key value : Value) (next : Value × Value)
    (entries : List (Value × Value)) :
    (layOut.entriesText depth ((key, value) :: next :: entries)).toList =
      (keyText key).toList ++ ':' :: ' ' :: ((layOut (depth + 1) value).toList ++
        ',' :: ((newLine (depth + 1)).toList ++
          (layOut.entriesText depth (next :: entries)).toList)) := by
  simp [layOut.entriesText]

theorem toList_entriesText_singleton (depth : Nat) (key value : Value) :
    (layOut.entriesText depth [(key, value)]).toList =
      (keyText key).toList ++ ':' :: ' ' :: (layOut (depth + 1) value).toList := by
  simp [layOut.entriesText]

theorem exists_cons_itemsText (depth : Nat) (item : Value) (items : List Value) :
    ∃ c more, (layOut.itemsText depth (item :: items)).toList = c :: more ∧ Starts c := by
  obtain ⟨c, more, text, starts⟩ := exists_cons_layOut (depth + 1) item
  cases items with
  | nil => exact ⟨c, more, text, starts⟩
  | cons next items =>
      exact ⟨c, _, by rw [toList_itemsText_cons, text]; rfl, starts⟩

theorem exists_cons_entriesText (depth : Nat) (entry : Value × Value)
    (entries : List (Value × Value)) :
    ∃ more, (layOut.entriesText depth (entry :: entries)).toList = '"' :: more := by
  obtain ⟨key, value⟩ := entry
  obtain ⟨more, text⟩ := exists_cons_stringText (keyName key)
  cases entries with
  | nil => exact ⟨_, by rw [toList_entriesText_singleton, keyText, text]; rfl⟩
  | cons next entries => exact ⟨_, by rw [toList_entriesText_cons, keyText, text]; rfl⟩

theorem readItems_last {steps opened offset depth : Nat} {item : Value} {cursor : Cursor}
    (read : readValue limit steps opened cursor =
      .ok (item, ⟨offset, (newLine depth).toList ++ ']' :: rest⟩)) (before : List Value) :
    ∃ finish, readItems limit (steps + 1) opened before cursor =
      .ok (.list (item :: before).reverse, ⟨finish, rest⟩) := by
  obtain ⟨behind, skip⟩ := skipSpace_newLine depth offset (c := ']') (by decide) rest
  refine ⟨behind + 1, ?_⟩
  rw [readItems, read, ok_bind]
  simp only [skip]
  rfl

theorem readItems_comma {steps opened offset depth : Nat} {item : Value} {cursor : Cursor}
    {c : Char} (notSpace : isSpace c = false)
    (read : readValue limit steps opened cursor =
      .ok (item, ⟨offset, ',' :: ((newLine depth).toList ++ c :: rest)⟩)) (before : List Value) :
    ∃ behind, readItems limit (steps + 1) opened before cursor =
      readItems limit steps opened (item :: before) ⟨behind, c :: rest⟩ := by
  obtain ⟨behind, skip⟩ := skipSpace_newLine depth (offset + 1) notSpace rest
  refine ⟨behind, ?_⟩
  rw [readItems, read, ok_bind]
  simp only [skipSpace_of_not_isSpace (c := ',') rfl, skip]

theorem readItems_itemsText {n opened : Nat} (depth : Nat) {items : List Value} {item : Value}
    (each : ∀ own ∈ item :: items, Rereads limit n own)
    (readable : fault?.inItems (item :: items) = none) (within : opened + n ≤ limit)
    (before : List Value) (offset : Nat) {steps : Nat}
    (enough : (layOut.itemsText depth (item :: items)).toList.length ≤ steps) (rest : List Char) :
    ∃ finish, readItems limit (steps + 1) opened before ⟨offset,
      (layOut.itemsText depth (item :: items)).toList ++ ((newLine depth).toList ++ ']' :: rest)⟩ =
        .ok (.list (before.reverse ++ returned.returnedItems (item :: items)), ⟨finish, rest⟩) := by
  induction items generalizing item before offset steps with
  | nil =>
      obtain ⟨first, -⟩ := Option.or_eq_none_iff.mp readable
      obtain ⟨stop, read⟩ := each item List.mem_cons_self (depth + 1) opened offset first within
        enough (ends_newLine depth (']' :: rest))
      obtain ⟨finish, whole⟩ := readItems_last read before
      refine ⟨finish, whole.trans ?_⟩
      rw [List.reverse_cons]
      rfl
  | cons next items ih =>
      obtain ⟨first, others⟩ := Option.or_eq_none_iff.mp readable
      obtain ⟨c, more, text, starts⟩ := exists_cons_itemsText depth next items
      rw [toList_itemsText_cons] at enough ⊢
      simp only [List.length_append, List.length_cons] at enough
      simp only [List.append_assoc, List.cons_append]
      obtain ⟨stop, read⟩ := each item List.mem_cons_self (depth + 1) opened offset first
        within (by omega : _ ≤ steps) (ends_comma ((newLine (depth + 1)).toList ++
          ((layOut.itemsText depth (next :: items)).toList ++
            ((newLine depth).toList ++ ']' :: rest))))
      cases steps with
      | zero => omega
      | succ steps =>
          obtain ⟨behind, more_eq⟩ := readItems_comma starts.noSpace
            (by rw [text] at read; exact read) before
          obtain ⟨finish, whole⟩ := ih (fun own member => each own (List.mem_cons_of_mem _ member))
            others (returned item :: before) behind (by omega : _ ≤ steps)
          refine ⟨finish, ?_⟩
          rw [text] at whole ⊢
          rw [List.reverse_cons, List.append_assoc] at whole
          exact more_eq.trans whole

/-- A name and its value are read, and then what follows them decides. -/
theorem readEntries_entry {steps opened : Nat} {text more : List Char} {c : Char} {value : Value}
    (front : text = c :: more) (notSpace : isSpace c = false)
    (read : ∀ offset, ∃ stop,
      readValue limit steps opened ⟨offset, text⟩ = .ok (value, ⟨stop, rest⟩))
    (before : List (Value × Value)) (key : Value) (offset : Nat) :
    ∃ stop, readEntries limit (steps + 1) opened before
        ⟨offset, (keyText key).toList ++ ':' :: ' ' :: text⟩ =
      let entries := setEntry (.text (joined (keyName key))) value before
      let after := Cursor.skipSpace ⟨stop, rest⟩
      match after.rest with
      | '\x7d' :: rest => .ok (.object entries, ⟨after.offset + 1, rest⟩)
      | ',' :: rest =>
        readEntries limit steps opened entries (Cursor.skipSpace ⟨after.offset + 1, rest⟩)
      | _ => .error (.problem .expectingComma after.offset) := by
  obtain ⟨colon, name⟩ := readString_stringText (keyName key) offset (':' :: ' ' :: text)
  obtain ⟨stop, read⟩ := read (colon + 1 + 1)
  obtain ⟨quoted, isString⟩ := exists_cons_stringText (keyName key)
  refine ⟨stop, ?_⟩
  have head : ((keyText key).toList ++ ':' :: ' ' :: text).head? = some '"' := by
    rw [keyText, isString]
    rfl
  rw [readEntries, if_neg (not_not.mpr head)]
  rw [← keyText] at name
  have noSpace : Cursor.skipSpace ⟨colon, ':' :: ' ' :: text⟩ = ⟨colon, ':' :: ' ' :: text⟩ :=
    skipSpace_of_not_isSpace rfl
  have blank : Cursor.skipSpace ⟨colon + 1, ' ' :: text⟩ = ⟨colon + 1 + 1, text⟩ := by
    rw [front]
    have space : ∀ d ∈ [' '], isSpace d = true := List.forall_mem_singleton.mpr rfl
    exact (skipSpace_append space (colon + 1)).trans (skipSpace_of_not_isSpace notSpace)
  simp only [name, ok_bind, noSpace, blank, read]
  rfl

theorem setEntry_named_of_not_mem {name : String} {own : List (String × Value)}
    (new : name ∉ own.map Prod.fst) (value : Value) :
    setEntry (.text name) value (named own) = named (own ++ [(name, value)]) := by
  induction own with
  | nil => rfl
  | cons entry own ih =>
      rw [List.map_cons, List.mem_cons, not_or] at new
      have differs : (entry.1 == name) = false := beq_eq_false_iff_ne.mpr (Ne.symm new.1)
      have later := ih new.2
      simp only [named, List.map_cons, List.cons_append] at later ⊢
      rw [setEntry, sameKey_text, differs, later]
      rfl

section Entry

variable {steps opened depth : Nat} {text more : List Char} {c : Char} {key value : Value}
  {before : List (String × Value)}

theorem readEntries_last (front : text = c :: more) (notSpace : isSpace c = false)
    (read : ∀ offset, ∃ stop, readValue limit steps opened ⟨offset, text⟩ =
      .ok (value, ⟨stop, (newLine depth).toList ++ '\x7d' :: rest⟩))
    (new : joined (keyName key) ∉ before.map Prod.fst) (offset : Nat) :
    ∃ finish, readEntries limit (steps + 1) opened (named before)
        ⟨offset, (keyText key).toList ++ ':' :: ' ' :: text⟩ =
      .ok (.object (named (before ++ [(joined (keyName key), value)])), ⟨finish, rest⟩) := by
  obtain ⟨stop, whole⟩ := readEntries_entry front notSpace read (named before) key offset
  obtain ⟨finish, skip⟩ := skipSpace_newLine depth stop (c := '\x7d') rfl rest
  simp only [skip, setEntry_named_of_not_mem new] at whole
  exact ⟨finish + 1, whole⟩

theorem readEntries_comma (front : text = c :: more) (notSpace : isSpace c = false)
    (read : ∀ offset, ∃ stop, readValue limit steps opened ⟨offset, text⟩ =
      .ok (value, ⟨stop, ',' :: ((newLine depth).toList ++ '"' :: rest)⟩))
    (new : joined (keyName key) ∉ before.map Prod.fst) (offset : Nat) :
    ∃ behind, readEntries limit (steps + 1) opened (named before)
        ⟨offset, (keyText key).toList ++ ':' :: ' ' :: text⟩ =
      readEntries limit steps opened (named (before ++ [(joined (keyName key), value)]))
        ⟨behind, '"' :: rest⟩ := by
  obtain ⟨stop, whole⟩ := readEntries_entry front notSpace read (named before) key offset
  obtain ⟨behind, skip⟩ := skipSpace_newLine depth (stop + 1) (c := '"') (by decide) rest
  simp only [skipSpace_of_not_isSpace (c := ',') rfl, skip, setEntry_named_of_not_mem new]
    at whole
  exact ⟨behind, whole⟩

end Entry

theorem not_mem_of_distinct {before : List (String × Value)} {entry : Value × Value}
    {entries : List (Value × Value)}
    (distinct : (before.map Prod.fst ++
      (entry :: entries).map fun own => joined (keyName own.1)).Nodup) :
    joined (keyName entry.1) ∉ before.map Prod.fst := fun member =>
  (List.nodup_append.mp distinct).2.2 _ member _ (by simp) rfl

theorem readEntries_entriesText {n opened : Nat} (depth : Nat) {entries : List (Value × Value)}
    {entry : Value × Value} (each : ∀ own ∈ entry :: entries, Rereads limit n own.2)
    (readable : fault?.inEntries (entry :: entries) = none) (within : opened + n ≤ limit)
    (before : List (String × Value))
    (distinct : (before.map Prod.fst ++
      (entry :: entries).map fun own => joined (keyName own.1)).Nodup) (offset : Nat)
    {steps : Nat} (enough : (layOut.entriesText depth (entry :: entries)).toList.length ≤ steps)
    (rest : List Char) :
    ∃ finish, readEntries limit (steps + 1) opened (named before) ⟨offset,
      (layOut.entriesText depth (entry :: entries)).toList ++
        ((newLine depth).toList ++ '\x7d' :: rest)⟩ =
          .ok (.object (named before ++ returned.returnedEntries (entry :: entries)),
            ⟨finish, rest⟩) := by
  induction entries generalizing entry before offset steps with
  | nil =>
      obtain ⟨key, value⟩ := entry
      have rereads : Rereads limit n value := each (key, value) List.mem_cons_self
      obtain ⟨first, -⟩ := Option.or_eq_none_iff.mp readable
      obtain ⟨-, first⟩ := Option.or_eq_none_iff.mp first
      obtain ⟨c, more, text, starts⟩ := exists_cons_layOut (depth + 1) value
      rw [toList_entriesText_singleton] at enough ⊢
      simp only [List.length_append, List.length_cons] at enough
      have read (offset : Nat) := rereads (depth + 1) opened offset first within
        (by omega : _ ≤ steps) (ends_newLine depth ('\x7d' :: rest))
      obtain ⟨finish, whole⟩ := readEntries_last (by rw [text]; rfl) starts.noSpace read
        (not_mem_of_distinct distinct) offset
      refine ⟨finish, ?_⟩
      simp only [List.append_assoc, List.cons_append]
      rw [whole, named, List.map_append]
      rfl
  | cons next entries ih =>
      obtain ⟨key, value⟩ := entry
      have rereads : Rereads limit n value := each (key, value) List.mem_cons_self
      obtain ⟨first, others⟩ := Option.or_eq_none_iff.mp readable
      obtain ⟨-, first⟩ := Option.or_eq_none_iff.mp first
      obtain ⟨c, more, text, starts⟩ := exists_cons_layOut (depth + 1) value
      obtain ⟨quoted, nextText⟩ := exists_cons_entriesText depth next entries
      rw [toList_entriesText_cons] at enough ⊢
      simp only [List.length_append, List.length_cons] at enough
      have read (offset : Nat) := rereads (depth + 1) opened offset first within
        (by omega : _ ≤ steps) (ends_comma ((newLine (depth + 1)).toList ++
          '"' :: (quoted ++ ((newLine depth).toList ++ '\x7d' :: rest))))
      obtain ⟨behind, more_eq⟩ := readEntries_comma (by rw [text]; rfl) starts.noSpace read
        (not_mem_of_distinct distinct) offset
      cases steps with
      | zero => omega
      | succ steps =>
          have later : ((before ++ [(joined (keyName key), returned value)]).map Prod.fst ++
              (next :: entries).map fun own => joined (keyName own.1)).Nodup := by
            simpa using distinct
          obtain ⟨finish, whole⟩ := ih
            (fun own member => each own (List.mem_cons_of_mem _ member)) others _ later behind
            (by omega : _ ≤ steps)
          refine ⟨finish, ?_⟩
          rw [nextText] at whole ⊢
          simp only [List.append_assoc, List.cons_append] at whole ⊢
          rw [more_eq, whole, named, named, List.map_append, List.append_assoc]
          rfl

theorem readValue_list {steps opened offset inside : Nat} {text more : List Char} {c : Char}
    (room : opened < limit)
    (skip : Cursor.skipSpace ⟨offset + 1, text⟩ = ⟨inside, c :: more⟩) (noEnd : c ≠ ']') :
    readValue limit (steps + 1) opened ⟨offset, '[' :: text⟩ =
      readItems limit steps (opened + 1) [] ⟨inside, c :: more⟩ := by
  rw [readValue]
  simp only [if_neg (Nat.not_le.mpr room), skip]
  split
  next same => exact absurd (List.cons.inj same).1 noEnd
  · rfl

theorem readValue_object {steps opened offset inside : Nat} {text more : List Char} {c : Char}
    (room : opened < limit)
    (skip : Cursor.skipSpace ⟨offset + 1, text⟩ = ⟨inside, c :: more⟩) (noEnd : c ≠ '\x7d') :
    readValue limit (steps + 1) opened ⟨offset, '\x7b' :: text⟩ =
      readEntries limit steps (opened + 1) [] ⟨inside, c :: more⟩ := by
  rw [readValue]
  simp only [if_neg (Nat.not_le.mpr room), skip]
  split
  next same => exact absurd (List.cons.inj same).1 noEnd
  · rfl

theorem rereads_list {n : Nat} {items : List Value} (each : ∀ item ∈ items, Rereads limit n item) :
    Rereads limit (n + 1) (.list items) := by
  intro depth opened offset steps rest readable within enough ends
  have room : opened < limit := by omega
  cases items with
  | nil =>
      have text : (layOut depth (.list [])).toList = ['[', ']'] := by simp [layOut]
      rw [text] at enough ⊢
      obtain ⟨steps, rfl⟩ := Nat.exists_eq_add_of_lt enough
      refine ⟨offset + 1 + 1, ?_⟩
      simp only [List.cons_append, List.nil_append, readValue,
        if_neg (Nat.not_le.mpr room), skipSpace_of_not_isSpace (c := ']') rfl]
      rfl
  | cons item items =>
      rw [toList_layOut_list] at enough ⊢
      simp only [List.length_cons, List.length_append] at enough
      obtain ⟨steps, rfl⟩ : ∃ k, steps = k + 2 := ⟨steps - 2, by omega⟩
      obtain ⟨c, more, text, starts⟩ := exists_cons_itemsText depth item items
      obtain ⟨inside, skip⟩ := skipSpace_newLine (depth + 1) (offset + 1) starts.noSpace
        (more ++ ((newLine depth).toList ++ ']' :: rest))
      obtain ⟨finish, read⟩ := readItems_itemsText depth each readable
        (by omega : opened + 1 + n ≤ _) [] inside (by omega : _ ≤ steps) rest
      refine ⟨finish, ?_⟩
      rw [text] at read ⊢
      simp only [List.append_assoc, List.cons_append, List.nil_append] at read ⊢
      exact (readValue_list room skip starts.noEnd).trans read

theorem rereads_object {n : Nat} {entries : List (Value × Value)}
    (distinct : (entries.map fun entry => joined (keyName entry.1)).Nodup)
    (each : ∀ entry ∈ entries, Rereads limit n entry.2) :
    Rereads limit (n + 1) (.object entries) := by
  intro depth opened offset steps rest readable within enough ends
  have room : opened < limit := by omega
  cases entries with
  | nil =>
      have text : (layOut depth (.object [])).toList = ['\x7b', '\x7d'] := by simp [layOut]
      rw [text] at enough ⊢
      obtain ⟨steps, rfl⟩ := Nat.exists_eq_add_of_lt enough
      refine ⟨offset + 1 + 1, ?_⟩
      simp only [List.cons_append, List.nil_append, readValue,
        if_neg (Nat.not_le.mpr room), skipSpace_of_not_isSpace (c := '\x7d') rfl]
      rfl
  | cons entry entries =>
      rw [toList_layOut_object] at enough ⊢
      simp only [List.length_cons, List.length_append] at enough
      obtain ⟨steps, rfl⟩ : ∃ k, steps = k + 2 := ⟨steps - 2, by omega⟩
      obtain ⟨more, text⟩ := exists_cons_entriesText depth entry entries
      obtain ⟨inside, skip⟩ := skipSpace_newLine (depth + 1) (offset + 1) (c := '"') (by decide)
        (more ++ ((newLine depth).toList ++ '\x7d' :: rest))
      obtain ⟨finish, read⟩ := readEntries_entriesText depth each readable
        (by omega : opened + 1 + n ≤ _) [] distinct inside (by omega : _ ≤ steps) rest
      refine ⟨finish, ?_⟩
      rw [text] at read ⊢
      simp only [List.append_assoc, List.cons_append, List.nil_append] at read ⊢
      exact (readValue_object room skip (by decide)).trans read

theorem rereads_of_legible {n : Nat} {value : Value} (legible : Legible n value) :
    Rereads limit n value := by
  induction legible with
  | scalar single => exact rereads_scalar _ single
  | list _ ih => exact rereads_list ih
  | object distinct _ ih => exact rereads_object distinct ih

/-- A document that is written is read back, also with the line end behind it. -/
theorem read_write {value : Value} {text : String} (written : write value = .ok text)
    (legible : Legible nestingLimit value) : read (text ++ "\n") = .ok (returned value) := by
  unfold write at written
  split at written
  next readable =>
    cases written
    obtain ⟨c, more, front, starts⟩ := exists_cons_layOut 0 value
    have text : (pretty value ++ "\n").toList = (layOut 0 value).toList ++ ['\n'] := by
      simp [pretty]
    have ends : Ends ['\n'] := by
      rintro c ⟨⟩
      decide
    have enough : (layOut 0 value).toList.length ≤
        2 * (pretty value ++ "\n").toList.length + 2 := by
      rw [text, List.length_append]
      omega
    have within : 0 + nestingLimit ≤ nestingLimit := Nat.le_of_eq (Nat.zero_add _)
    obtain ⟨finish, whole⟩ := rereads_of_legible legible 0 0 0 readable within enough ends
    have noMark : ((layOut 0 value).toList ++ ['\n']).head? ≠ some '\uFEFF' := by
      rw [front]
      simpa using starts.noMark
    have skip : skipSpaceFrom 0 ((layOut 0 value).toList ++ ['\n']) =
        ⟨0, (layOut 0 value).toList ++ ['\n']⟩ := by
      rw [front]
      exact skipSpace_of_not_isSpace starts.noSpace
    unfold read readChars readCharsWithin
    rw [text] at whole ⊢
    simp only [if_neg noMark, skip, whole]
    rfl
  · cases written

end Json

end VersionRange
