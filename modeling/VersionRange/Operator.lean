/-!
# Comparison operators

The five primitive operators of ranges.  An operator is applied to the outcome of
comparing a candidate with a target.
-/

namespace VersionRange

inductive Operator
  | less
  | lessEqual
  | greater
  | greaterEqual
  | equal
  deriving DecidableEq, Repr

namespace Operator

def symbol : Operator → String
  | less => "<"
  | lessEqual => "<="
  | greater => ">"
  | greaterEqual => ">="
  | equal => "="

/-- The operator written as `symbol`; nothing at all means equality. -/
def ofSymbol? (symbol : String) : Option Operator :=
  match symbol with
  | "" => some equal
  | "<" => some less
  | "<=" => some lessEqual
  | ">" => some greater
  | ">=" => some greaterEqual
  | "=" => some equal
  | _ => none

/-- Whether the operator accepts the outcome of a comparison. -/
def test : Operator → Ordering → Bool
  | less, outcome => outcome.isLT
  | lessEqual, outcome => outcome.isLE
  | greater, outcome => outcome.isGT
  | greaterEqual, outcome => outcome.isGE
  | equal, outcome => outcome.isEq

@[simp] theorem ofSymbol?_symbol (op : Operator) : ofSymbol? op.symbol = some op := by
  cases op <;> rfl

/-- The outcomes that an operator accepts. -/
theorem test_iff {op : Operator} {outcome : Ordering} :
    op.test outcome = true ↔
      match op with
      | less => outcome = .lt
      | lessEqual => outcome ≠ .gt
      | greater => outcome = .gt
      | greaterEqual => outcome ≠ .lt
      | equal => outcome = .eq := by
  cases op <;> cases outcome <;> simp [test]

end Operator

end VersionRange
