import Rulebook.Number.Numeral

/-!
# Shortest decimals

This is the shortest decimal that reads back as a given double-precision number, and of the shortest
ones the nearest. The decimals that read back as a magnitude `m` fill the interval between the two
points half way to its neighbours, ends included just for even `m`. With a given count of digits
only the two decimals next to the number itself need to be tried.

`Binary64.display` writes the digits out: with a point from `1e-5` up to below `1e16`, and with a
signed exponent outside. There is always a point or an exponent, so that the text is never that of
an integer.
-/

namespace Rulebook

namespace Binary64

/-- Whether `10 ^ e` is at most `num / den`. -/
def tenPowerLe (e : Int) (num den : Nat) : Bool :=
  if 0 ≤ e then den * Nat.pow 10 e.toNat ≤ num else den ≤ num * Nat.pow 10 e.natAbs

/-- The exponent of the highest power of ten that is at most the ratio `num / den`, found from an
estimate by the binary logarithms, which is at most one off. -/
def decimalExponent (num den : Nat) : Int :=
  let estimate := ((num.log2 : Int) - den.log2) * 30103 / 100000
  if tenPowerLe (estimate + 1) num den then estimate + 1
  else if tenPowerLe estimate num den then estimate
  else estimate - 1

/-- Twice a finite magnitude's value, in units. -/
def twiceUnits (m : Nat) : Nat := 2 * units m

/-- Whether the ratio `num / den`, in half units, rounds to the magnitude `m`, which is not zero. -/
def readsBackAs (m num den : Nat) : Bool :=
  let low := (units (m - 1) + units m) * den
  let high := (units m + units (m + 1)) * den
  if m % 2 = 0 then low ≤ num && num ≤ high else low < num && num < high

/-- Of the two decimals `digits * 10 ^ e` next to a magnitude, the nearer of those that read back
as it, given by its digits. -/
def decimalOn? (m : Nat) (e : Int) : Option Nat :=
  let up := if 0 ≤ e then Nat.pow 10 e.toNat * (2 * unitsPerOne) else 2 * unitsPerOne
  let down := if 0 ≤ e then 1 else Nat.pow 10 e.natAbs
  let floor := twiceUnits m * down / up
  let reads := fun digits => readsBackAs m (digits * up) down
  let nearer := roundHalfEven (twiceUnits m * down) up
  if reads nearer then some nearer
  else if reads floor then some floor
  else if reads (floor + 1) then some (floor + 1)
  else none

/-- Searches the grids of `count`, `count + 1`, … digits, `left` of them. -/
def searchDigits (m : Nat) (top : Int) : Nat → Nat → Nat × Int
  | _, 0 => (0, 0)
  | count, left + 1 =>
    let e := top - count + 1
    match decimalOn? m e with
    | some digits => (digits, e)
    | none => searchDigits m top (count + 1) left

/-- The shortest decimal `digits * 10 ^ e` that reads back as a finite magnitude, which is not
zero. Seventeen digits are always enough. -/
def shortest (m : Nat) : Nat × Int :=
  searchDigits m (decimalExponent (units m) unitsPerOne) 1 17

/-- The text of `digits * 10 ^ e`, with the trailing zeros of the digits left out. -/
def displayDecimal (digits : Nat) (e : Int) : List Char :=
  let ds := Nat.toDigits 10 digits
  let significant := (ds.reverse.dropWhile (· = '0')).reverse
  let point := ds.length + e
  if 0 < point ∧ point ≤ 16 then
    let whole := significant.take point.toNat
    let fraction := significant.drop point.toNat
    whole ++ List.replicate (point.toNat - whole.length) '0' ++ ['.'] ++
      (if fraction = [] then ['0'] else fraction)
  else if -5 < point ∧ point ≤ 0 then
    ['0', '.'] ++ List.replicate point.natAbs '0' ++ significant
  else
    let power := point - 1
    significant.take 1 ++
      (if significant.length ≤ 1 then [] else '.' :: significant.drop 1) ++
      ['e', if power < 0 then '-' else '+'] ++ Nat.toDigits 10 power.natAbs

/-- The text of a finite number. -/
def display (x : Binary64) : String :=
  let digits :=
    if x.magnitude = 0 then ['0', '.', '0']
    else
      let (digits, e) := shortest x.magnitude
      displayDecimal digits e
  String.ofList ((if x.isNegative then ['-'] else []) ++ digits)

end Binary64

end Rulebook
