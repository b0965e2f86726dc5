import Rulebook.Number.Numeral

/-!
# The numbers of JSON texts

A numeral without point and exponent is an integer as long as it fits in a 64-bit word. Every other
numeral is read in steps, each of which rounds: digits are taken while they fit in one unsigned
64-bit word and the others only count towards the exponent, the word is rounded to a double, and the
double is multiplied or divided by a power of ten that is itself rounded. The outcome is within a
few last places of the exact value and need not be the nearest number. A numeral whose steps leave
the finite numbers has no value.
-/

namespace Rulebook

/-- The value of a numeral in a JSON text. -/
inductive NumberValue
  | integer (i : Int)
  | real (x : Binary64)
deriving DecidableEq, Repr

/-- The value as a double-precision number. -/
def NumberValue.toBinary64 : NumberValue → Binary64
  | .integer i => .ofInt i
  | .real x => x

namespace Numeral

/-- Takes digits into a word, which holds `word` so far, while the word stays below `2 ^ 64`.
Gives the word and the digits that are left. -/
def fillWord (word : Nat) : List Digit → Nat × List Digit
  | [] => (word, [])
  | d :: ds =>
    if 10 * word + d.val < Nat.pow 2 64 then fillWord (10 * word + d.val) ds else (word, d :: ds)

/-- The magnitude nearest to a power of ten. -/
def tenPower (k : Nat) : Nat := Binary64.nearestMagnitude (Nat.pow 10 k) 1

/-- A magnitude times ten to the power `e`, by one step for an exponent of at most 308 and by steps
of 308 below that. Nothing if the outcome would be infinite. -/
def scaleByTen (m : Nat) (e : Int) : Option Nat :=
  if 308 < e then if m = 0 then some 0 else none
  else if 0 ≤ e then
    let product := Binary64.mulMagnitude m (tenPower e.toNat)
    if product = Binary64.infiniteMagnitude then none else some product
  else if -308 ≤ e then some (Binary64.divMagnitude m (tenPower e.natAbs))
  else if m = 0 then some 0
  else scaleByTen (Binary64.divMagnitude m (tenPower 308)) (e + 308)
termination_by e.natAbs

/-- The number that the steps arrive at, for a numeral of any form. -/
def stepwise (n : Numeral) : Option Binary64 :=
  let (word, wholeLeft) := fillWord 0 n.whole
  let (word, fractionLeft) := fillWord word n.fraction
  let taken := n.fraction.length - fractionLeft.length
  let exponent : Int := n.exponent.getD 0 + wholeLeft.length - taken
  (scaleByTen (Binary64.nearestMagnitude word 1) exponent).map (.ofMagnitude n.negative)

/-- The integer that a numeral without point and exponent spells, if it fits in a 64-bit word,
signed for a minus sign. Minus zero is no integer. -/
def integer? (n : Numeral) : Option Int :=
  let size := Digit.natOf 0 n.whole
  if n.fraction ≠ [] ∨ n.exponent ≠ none then none
  else if n.negative then if 0 < size ∧ size ≤ Nat.pow 2 63 then some (-(size : Int)) else none
  else if size < Nat.pow 2 64 then some size else none

/-- The value of a numeral in a JSON text, if it has one. -/
def value? (n : Numeral) : Option NumberValue :=
  match n.integer? with
  | some i => some (.integer i)
  | none => n.stepwise.map .real

end Numeral

end Rulebook
