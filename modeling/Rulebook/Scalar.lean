import Rulebook.Number.Numeral
import Rulebook.Text.Blank

/-!
# Scalars

The values that conditions compare: numbers and texts. A literal between quotes is a text; without
quotes it is a number if it is a numeral with a finite value, and a text otherwise. So the words for
infinity and for no number are texts, and no literal is an infinity.
-/

namespace Rulebook

/-- A value of an attribute or of a literal. -/
inductive Scalar
  | number (x : Binary64)
  | text (s : String)
deriving DecidableEq, Repr

namespace Scalar

/-- The text between two equal quotes at the ends, if the ends are such quotes. -/
def unquoted? : List Char → Option (List Char)
  | [] => none
  | q :: cs =>
    if (q = '\'' ∨ q = '"') ∧ cs.getLast? = some q then some cs.dropLast else none

/-- The value that an unquoted literal stands for. -/
def ofBareLiteral (cs : List Char) : Scalar :=
  match Numeral.ofLiteral? cs with
  | some n => if n.nearest.isFinite then .number n.nearest else .text (String.ofList cs)
  | none => .text (String.ofList cs)

/-- The value that a literal stands for, white space around it left out. -/
def ofLiteral (cs : List Char) : Scalar :=
  match unquoted? (trimBlank cs) with
  | some inner => .text (String.ofList inner)
  | none => ofBareLiteral (trimBlank cs)

/-- Equality of values, by which two zeros are equal and what is no number equals nothing. -/
def same : Scalar → Scalar → Bool
  | .number x, .number y => x.numEq y
  | .text s, .text t => s = t
  | _, _ => false

end Scalar

end Rulebook
