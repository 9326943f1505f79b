import VersionRange.Version.Precedence
import VersionRange.Version.Parser

/-!
# Comparators

A comparator either admits any version or applies an operator to a target.  It
carries the options of the parse that made it.

Prereleases are gated: unless the options include prereleases, a comparator
admits a prerelease only if some comparator of its group has a prerelease target
with the same three numbers as the candidate.
-/

namespace VersionRange

/-- The options of one parse. -/
structure ParseOptions where
  includePrerelease : Bool := false
  deriving DecidableEq, Repr

inductive Comparator
  | any (options : ParseOptions)
  | exact (op : Operator) (target : Version) (options : ParseOptions)
  deriving DecidableEq, Repr

namespace Comparator

def options : Comparator → ParseOptions
  | any options => options
  | exact _ _ options => options

def text : Comparator → String
  | any _ => "*"
  | exact op target _ => op.symbol ++ target.text

/-- Whether the target is a prerelease of the candidate's three numbers. -/
def unlocks : Comparator → Version → Bool
  | any _, _ => false
  | exact _ target _, candidate => target.isPrerelease && target.main == candidate.main

/-- How the candidate ranks relative to the target. -/
def compare : Comparator → Version → Ordering
  | any _, _ => .eq
  | exact _ target _, candidate => candidate.compare target

/-- Whether the operator accepts the candidate, the gate left aside. -/
def accepts : Comparator → Version → Bool
  | any _, _ => true
  | exact op target _, candidate => op.test (candidate.compare target)

/-- Whether the candidate passes the gate of a comparator among its siblings. -/
def passesGate (c : Comparator) (candidate : Version) (siblings : List Comparator) : Bool :=
  !candidate.isPrerelease || c.options.includePrerelease ||
    c.unlocks candidate || siblings.any fun other => other.unlocks candidate

/-- Whether a comparator of the group `siblings` admits the candidate. -/
def includes (c : Comparator) (candidate : Version) (siblings : List Comparator) : Bool :=
  c.passesGate candidate siblings && c.accepts candidate

/-- Equality of comparators: the operators and the options are the same and the
targets rank the same. -/
def sameAs : Comparator → Comparator → Bool
  | any o, any p => o == p
  | exact op v o, exact op' w p => op == op' && v.sameRank w && o == p
  | _, _ => false

/-- Comparators of which one is dropped when both stand in a group. -/
def interchangeable : Comparator → Comparator → Bool
  | any o, any p => o == p
  | exact op v o, exact op' w p => op == op' && v.interchangeable w && o == p
  | _, _ => false

/-- `*`, `>=0.0.0` and `>=0.0.0-0`, whatever their build. -/
def isAllInclusive : Comparator → Bool
  | any _ => true
  | exact op target _ =>
    op == .greaterEqual && target.main == (0, 0, 0) &&
      (target.prerelease == [] || target.prerelease == [.numeric 0])

/-- `<0.0.0-0`, below which there is no version. -/
def isAllExclusive : Comparator → Bool
  | any _ => false
  | exact op target _ => op == .less && target.sameRank Version.lowest

/-- A comparator from an operator and a target given as values.  The operator has
been read from its symbol, or is a value that is no operator. -/
def build? (op : Except Value Operator) (target : Option Version) (options : ParseOptions) :
    Except Fault Comparator :=
  match op, target with
  | .error value, _ => .error (.range (.badOperator value))
  | .ok op, none => .error (.range (.missingTarget op))
  | .ok op, some target => .ok (exact op target options)

end Comparator

/-- The relation written by `symbol` between a version and a value.  Only a version
is equal to a version, and only versions can be ordered with one. -/
def Version.related (a : Version) (symbol : String) (b : Value) : Except Fault Bool :=
  match b, symbol with
  | .version b, "==" => .ok (a.sameRank b)
  | .version b, "!=" => .ok (!a.sameRank b)
  | .version b, _ => .ok (((Operator.ofSymbol? symbol).map (·.test (a.compare b))).getD false)
  | _, "==" => .ok false
  | _, "!=" => .ok true
  | other, _ => .error (.sort (.notOrdered symbol (Value.version a).kind other.kind))

/-- The operator whose symbol is the given value. -/
def Operator.ofToken (token : Value) : Except Fault Operator :=
  match token with
  | .text symbol =>
    match ofSymbol? symbol with
    | some op => .ok op
    | none => .error (.range (.unknownOperator token))
  | _ => .error (.range (.unknownOperator token))

end VersionRange
