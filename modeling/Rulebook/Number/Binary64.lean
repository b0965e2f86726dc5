/-!
# Double-precision numbers

Double-precision numbers are held as the 64 bits of their binary form. The bits below the sign are
the *magnitude*; magnitudes count the non-negative numbers upwards from zero, so two numbers of one
sign compare as their magnitudes do. Infinity comes after the last finite number, and the magnitudes
beyond it are no numbers at all.

Every finite magnitude is a whole multiple of the smallest positive number, `2 ^ (-1074)`. Counted
in this unit the numbers are naturals, and rounding a ratio to the nearest number is natural
arithmetic: `nearestMagnitude`.
-/

namespace Rulebook

/-- A double-precision number, as its 64 bits. -/
structure Binary64 where
  bits : UInt64
deriving DecidableEq, Repr, Inhabited

namespace Binary64

/-- The weight of the sign bit. -/
def signWeight : Nat := Nat.pow 2 63

/-- How many magnitudes share one exponent. -/
def perBinade : Nat := Nat.pow 2 52

/-- The magnitude of infinity, one more than that of the largest finite number. -/
def infiniteMagnitude : Nat := 2047 * perBinade

/-- How many of the smallest positive number make one. -/
def unitsPerOne : Nat := Nat.pow 2 1074

/-- The number with the given sign and magnitude. -/
def ofMagnitude (negative : Bool) (m : Nat) : Binary64 :=
  ⟨UInt64.ofNat (m % signWeight + if negative then signWeight else 0)⟩

/-- Whether the sign bit is set. -/
def isNegative (x : Binary64) : Bool := signWeight ≤ x.bits.toNat

/-- The bits below the sign. -/
def magnitude (x : Binary64) : Nat := x.bits.toNat % signWeight

/-- Whether the bits stand for no number. -/
def isNaN (x : Binary64) : Bool := infiniteMagnitude < x.magnitude

/-- Whether the bits stand for a finite number. -/
def isFinite (x : Binary64) : Bool := x.magnitude < infiniteMagnitude

/-- The place of a number in numeric order; the two zeros share one. -/
def rank (x : Binary64) : Int := if x.isNegative then -(x.magnitude : Int) else x.magnitude

/-- Numeric less-than, which holds of nothing that is no number. -/
def lt (x y : Binary64) : Bool := !x.isNaN && !y.isNaN && x.rank < y.rank

/-- Numeric equality: the two zeros are equal, and what is no number is not equal to itself. -/
def numEq (x y : Binary64) : Bool := !x.isNaN && !y.isNaN && x.rank = y.rank

/-- The value of a finite magnitude, counted in the smallest positive number. -/
def units (m : Nat) : Nat :=
  if m < perBinade then m else (perBinade + m % perBinade) * Nat.pow 2 (m / perBinade - 1)

/-- The whole number nearest to `num / den`, the even one of two that are equally near. -/
def roundHalfEven (num den : Nat) : Nat :=
  let down := num / den
  let rest := 2 * (num % den)
  if rest < den ∨ rest = den ∧ down % 2 = 0 then down else down + 1

/-- The magnitude nearest to the ratio `num / den`, the even one of two that are equally near, and
infinity from half a step beyond the largest finite number on. Of the ratio in units, as many low
binary digits are rounded away as leave 53. -/
def nearestMagnitude (num den : Nat) : Nat :=
  let dropped := (num * unitsPerOne / den).log2 - 52
  min infiniteMagnitude
    (dropped * perBinade + roundHalfEven (num * unitsPerOne) (den * Nat.pow 2 dropped))

/-- The number nearest to an integer. -/
def ofInt (i : Int) : Binary64 := ofMagnitude (i < 0) (nearestMagnitude i.natAbs 1)

/-- The magnitude nearest to the product of two finite magnitudes. -/
def mulMagnitude (a b : Nat) : Nat :=
  nearestMagnitude (units a * units b) (unitsPerOne * unitsPerOne)

/-- The magnitude nearest to the quotient of two finite magnitudes, the second not zero. -/
def divMagnitude (a b : Nat) : Nat := nearestMagnitude (units a) (units b)

end Binary64

end Rulebook
