import Rulebook.Clause
import Rulebook.Error
import Rulebook.Record

/-!
# Conditions

Conditions are what clauses say. A condition compares one attribute of a record with one value. An
attribute that the record lacks, or that holds a value of the other type, satisfies no condition.
-/

namespace Rulebook

/-- A comparison of an attribute with a value. -/
structure Condition where
  attr : String
  comparator : Comparator
  value : Scalar
deriving DecidableEq, Repr

/-- What a clause says. -/
def Clause.condition (c : Clause) : Condition :=
  ⟨String.ofList c.attr, c.comparator, .ofLiteral c.literal⟩

namespace Condition

/-- The condition that a text says, if the text is one clause with white space around it. -/
def parse? (s : String) : Option Condition :=
  match Clause.read? (s.toList.dropWhile isBlank) with
  | some (c, rest) => if rest.all isBlank then some c.condition else none
  | none => none

/-- The condition that a text says, or the error that it says none. -/
def parse (s : String) : Except RuleError Condition :=
  match parse? s with
  | some c => .ok c
  | none => .error (.malformedCondition s)

/-- Whether two values of one type compare as wanted. -/
def compares : Comparator → Scalar → Scalar → Bool
  | .greater, .number x, .number y => y.lt x
  | .less, .number x, .number y => x.lt y
  | .equal, .number x, .number y => x.numEq y
  | .greater, .text s, .text t => t < s
  | .less, .text s, .text t => s < t
  | .equal, .text s, .text t => s = t
  | _, _, _ => false

/-- Whether a record satisfies a condition. -/
def holds (c : Condition) (r : Record) : Bool :=
  match r.get? c.attr with
  | some v => compares c.comparator v c.value
  | none => false

end Condition

end Rulebook
