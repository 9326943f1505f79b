import VersionRange.Fault

/-!
# The order of keys

Numbers are ordered by value, texts, dates and moments among themselves; values of
different sorts have no order.  Sorting therefore may fail, and then the fault
tells of the first two values that were compared in vain.  The comparisons are made
in a fixed sequence: an ascending or strictly descending run at the front is kept
or turned round, and every further element is put in its place by bisection.
-/

namespace VersionRange

namespace Value

/-- A number on the extended line: its place below, on or above the finite
numbers, and the finite number as a fraction. -/
def rational? : Value → Option (Int × Int × Nat)
  | bool b => some (0, if b then 1 else 0, 1)
  | int n => some (0, n, 1)
  | float (.finite negative mantissa exponent) =>
    let (num, den) := Binary64.magnitude mantissa exponent
    some (0, if negative then -(num : Int) else num, den)
  | float (.infinite negative) => some (if negative then -1 else 1, 0, 1)
  | _ => none

/-- The name of the sort of a value in faults about order. -/
def orderedKind : Value → String
  | date _ => "datetime.date"
  | moment _ => "datetime.datetime"
  | other => other.kind

/-- Whether `a` is below `b`, where the two have an order.  Nothing is below or
above a float that is not a number. -/
def less (a b : Value) : Except SortFault Bool :=
  match a, b with
  | text s, text t => .ok (textBefore s t)
  | bytes b, bytes c => .ok (decide (b.map UInt8.toNat < c.map UInt8.toNat))
  | date d, date e => .ok (d.dayNumber < e.dayNumber)
  | moment m, moment n =>
    if m.comparable n then .ok (m.clock < n.clock) else .error .mixedZones
  | moment _, date _ | date _, moment _ => .error .momentAndDate
  | float .nan, other => if isNumber other then .ok false else unordered
  | other, float .nan => if isNumber other then .ok false else unordered
  | a, b =>
    match a.rational?, b.rational? with
    | some (m, p, q), some (n, r, s) =>
      .ok (decide (m < n) || (m == n && decide (p * s < r * q)))
    | _, _ => unordered
where
  isNumber : Value → Bool
    | bool _ | int _ | float _ => true
    | _ => false
  unordered : Except SortFault Bool :=
    .error (.notOrdered "<" a.orderedKind b.orderedKind)

end Value

/-- Puts `pivot` behind the elements of the sorted list `xs` that it is not below,
always asking at the middle. -/
def bisectInsert {α : Type} (less : α → α → Except Fault Bool) (pivot : α) (xs : List α) :
    Except Fault (List α) :=
  match _h : xs[xs.length / 2]? with
  | none => .ok [pivot]
  | some middle => do
    if ← less pivot middle then
      return (← bisectInsert less pivot (xs.take (xs.length / 2))) ++ xs.drop (xs.length / 2)
    else
      return xs.take (xs.length / 2 + 1) ++
        (← bisectInsert less pivot (xs.drop (xs.length / 2 + 1)))
termination_by xs.length
decreasing_by
  all_goals
    obtain ⟨_, _⟩ := List.getElem?_eq_some_iff.1 _h
    simp only [List.length_take, List.length_drop]
    omega

/-- Splits off the elements that go on descending (`down`) or not descending from
`last`. -/
def runFrom {α : Type} (less : α → α → Except Fault Bool) (down : Bool) (last : α) :
    List α → Except Fault (List α × List α)
  | [] => .ok ([], [])
  | next :: rest => do
    if (← less next last) == down then
      let (run, others) ← runFrom less down next rest
      return (next :: run, others)
    else return ([], next :: rest)

/-- Sorts by an order that may fail; elements of which none is below the other keep
their order. -/
def sortChecked {α : Type} (less : α → α → Except Fault Bool) :
    List α → Except Fault (List α)
  | first :: second :: rest => do
    let down ← less second first
    let (run, others) ← runFrom less down second rest
    let start := if down then (first :: second :: run).reverse else first :: second :: run
    others.foldlM (fun sorted pivot => bisectInsert less pivot sorted) start
  | short => .ok short

end VersionRange
