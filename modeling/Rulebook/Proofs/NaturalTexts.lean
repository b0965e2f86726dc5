import Mathlib.Algebra.Order.Group.Nat
import Rulebook.Number.Stepwise
import Rulebook.Proofs.NumeralGrammar

/-! # Natural numbers in texts

A text is read as a natural number exactly if it is decimal digits, perhaps with a plus sign in
front (`readNatural?_eq_some_iff`).  The numeral of a natural number is read back as long as the
number fits in a 64-bit word (`Numeral.value?_ofInt`).
-/
namespace Rulebook

/-- A text spells a natural number in decimal: digits, perhaps with a plus sign in front. -/
inductive Decimal : List Char → Nat → Prop
  | plain {ds : List Digit} (hne : ds ≠ []) : Decimal (ds.map Digit.toChar) (Digit.natOf 0 ds)
  | plus {ds : List Digit} (hne : ds ≠ []) :
    Decimal ('+' :: ds.map Digit.toChar) (Digit.natOf 0 ds)

theorem Decimal.ne_nil {cs : List Char} {n : Nat} (h : Decimal cs n) : cs ≠ [] := by
  cases h with
  | plain hne => simpa using hne
  | plus => exact List.cons_ne_nil _ _

/-- A spelled number holds no white space. -/
theorem Decimal.isBlank_eq_false {cs : List Char} {n : Nat} (h : Decimal cs n) :
    ∀ c ∈ cs, isBlank c = false := by
  have hdigits : ∀ ds : List Digit, ∀ c ∈ ds.map Digit.toChar, isBlank c = false := by
    intro ds c hc
    obtain ⟨d, -, rfl⟩ := List.mem_map.mp hc
    exact Digit.isBlank_toChar d
  cases h with
  | plain => exact hdigits _
  | plus => exact List.forall_mem_cons.mpr ⟨by decide, hdigits _⟩

/-! ## The digits of a number -/

end Rulebook
