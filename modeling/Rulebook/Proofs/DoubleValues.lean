import Mathlib.Data.EReal.Basic
import Mathlib.Data.Int.ConditionallyCompleteOrder
import Mathlib.Data.Rat.Cast.Order
import Mathlib.Order.Monotone.Odd
import Rulebook.Proofs.NearestEven

/-! # The values of doubles

A double is its sign and its magnitude (`ofMagnitude`, `eq_of_isNegative_magnitude`).  A finite one
has a rational value (`toRat`), the two infinities lie beyond all of these (`toEReal`), and what is
no number has no value.  Doubles are compared by their rank, which counts the magnitudes up and down
from zero, and since larger magnitudes have larger values this is the order of the values
(`toRat_lt_iff`, `toEReal_lt_iff`).  So the comparisons of doubles are those of their values
(`lt_eq_true_iff`, `numEq_eq_true_iff`).
-/
namespace Rulebook.Binary64

/-! ## Sign and magnitude -/

theorem toNat_bits_ofMagnitude (negative : Bool) {m : ℕ} (h : m < signWeight) :
    (ofMagnitude negative m).bits.toNat = m + if negative then signWeight else 0 := by
  have hsign : signWeight = 2 ^ 63 := rfl
  rw [ofMagnitude, Nat.mod_eq_of_lt h, UInt64.toNat_ofNat']
  cases negative <;> simp <;> omega

theorem magnitude_ofMagnitude (negative : Bool) {m : ℕ} (h : m < signWeight) :
    (ofMagnitude negative m).magnitude = m := by
  rw [magnitude, toNat_bits_ofMagnitude negative h]
  cases negative <;> simp [Nat.mod_eq_of_lt h]

theorem isNegative_ofMagnitude (negative : Bool) {m : ℕ} (h : m < signWeight) :
    (ofMagnitude negative m).isNegative = negative := by
  rw [isNegative, toNat_bits_ofMagnitude negative h]
  cases negative <;> simp [h]

theorem infiniteMagnitude_lt : infiniteMagnitude < signWeight := by decide

/-- A double has no more than its sign and its magnitude. -/
theorem eq_of_isNegative_magnitude {x y : Binary64} (hs : x.isNegative = y.isNegative)
    (hm : x.magnitude = y.magnitude) : x = y := by
  have hsign : signWeight = 2 ^ 63 := rfl
  have hx := x.bits.toNat_lt
  have hy := y.bits.toNat_lt
  have hbits : x.bits.toNat = y.bits.toNat := by
    simp only [isNegative, magnitude, hsign, decide_eq_decide] at hs hm
    omega
  cases x
  cases y
  exact congrArg Binary64.mk (UInt64.toNat.inj hbits)

theorem isNaN_eq_false_iff {x : Binary64} : x.isNaN = false ↔ x.magnitude ≤ infiniteMagnitude := by
  rw [isNaN, decide_eq_false_iff_not, not_lt]

theorem isFinite_iff {x : Binary64} : x.isFinite = true ↔ x.magnitude < infiniteMagnitude := by
  rw [isFinite, decide_eq_true_iff]

theorem isNaN_of_isFinite {x : Binary64} (h : x.isFinite = true) : x.isNaN = false :=
  isNaN_eq_false_iff.mpr (isFinite_iff.mp h).le

/-! ## Ranks and values -/

theorem magnitude_eq_natAbs_rank (x : Binary64) : x.magnitude = x.rank.natAbs := by
  rw [rank]
  split <;> simp

/-- The value of a rank, in units. -/
def signedUnits (z : ℤ) : ℚ := z.sign * units z.natAbs

theorem signedUnits_natCast (m : ℕ) : signedUnits m = units m := by
  rw [signedUnits, Int.natAbs_natCast]
  cases m with
  | zero => simp [units_zero]
  | succ m => rw [Int.sign_natCast_of_ne_zero (Nat.succ_ne_zero m), Int.cast_one, one_mul]

theorem signedUnits_neg (z : ℤ) : signedUnits (-z) = -signedUnits z := by
  rw [signedUnits, signedUnits, Int.sign_neg, Int.natAbs_neg, Int.cast_neg, neg_mul]

/-- Larger ranks have larger values. -/
theorem signedUnits_strictMono : StrictMono signedUnits := by
  refine strictMono_of_odd_strictMonoOn_nonneg signedUnits_neg ?_
  intro a ha b hb hab
  lift a to ℕ using ha
  lift b to ℕ using hb
  rw [signedUnits_natCast, signedUnits_natCast]
  exact cast_units_lt (by exact_mod_cast hab)

/-- A ratio with a sign. -/
def signed (negative : Bool) (v : ℚ) : ℚ := if negative then -v else v

@[simp] theorem abs_signed (negative : Bool) (v : ℚ) : |signed negative v| = |v| := by
  cases negative <;> simp [signed]

/-- Of one sign, ratios are as far apart as without it. -/
theorem abs_signed_sub (negative : Bool) (v w : ℚ) :
    |signed negative v - signed negative w| = |v - w| := by
  cases negative with
  | false => rfl
  | true =>
    show |-v - -w| = |v - w|
    rw [neg_sub_neg, abs_sub_comm]

/-- Of different signs, they are as far apart as both are from zero. -/
theorem abs_signed_sub_of_ne {negative negative' : Bool} (h : negative ≠ negative') {v w : ℚ}
    (hv : 0 ≤ v) (hw : 0 ≤ w) : |signed negative v - signed negative' w| = v + w := by
  cases negative <;> cases negative'
  · exact absurd rfl h
  · show |v - -w| = v + w
    rw [sub_neg_eq_add, abs_of_nonneg (add_nonneg hv hw)]
  · show |-v - w| = v + w
    rw [← neg_add', abs_neg, abs_of_nonneg (add_nonneg hv hw)]
  · exact absurd rfl h

/-- The value of a finite double. -/
def toRat (x : Binary64) : ℚ := signed x.isNegative (units x.magnitude / unitScale)

theorem toRat_eq (x : Binary64) : x.toRat = signedUnits x.rank / unitScale := by
  rw [toRat, signed, rank]
  split
  · rw [signedUnits_neg, signedUnits_natCast, neg_div]
  · rw [signedUnits_natCast]

theorem toRat_lt_iff {x y : Binary64} : x.toRat < y.toRat ↔ x.rank < y.rank := by
  rw [toRat_eq, toRat_eq, div_lt_div_iff_of_pos_right unitScale_pos,
    signedUnits_strictMono.lt_iff_lt]

theorem toRat_inj {x y : Binary64} : x.toRat = y.toRat ↔ x.rank = y.rank := by
  rw [toRat_eq, toRat_eq, div_left_inj' unitScale_pos.ne', signedUnits_strictMono.injective.eq_iff]

/-- The value of a double that is a number, with the infinities at the two ends. -/
noncomputable def toEReal (x : Binary64) : EReal :=
  if x.isFinite then ((x.toRat : ℝ) : EReal) else if x.isNegative then ⊥ else ⊤

theorem toEReal_of_isFinite {x : Binary64} (h : x.isFinite = true) :
    x.toEReal = ((x.toRat : ℝ) : EReal) := if_pos h

/-- A number that is not finite is one of the two infinities. -/
theorem infinite_cases {x : Binary64} (hnum : x.isNaN = false) (h : ¬ x.isFinite = true) :
    (x.toEReal = ⊥ ∧ x.rank = -(infiniteMagnitude : ℤ)) ∨
      (x.toEReal = ⊤ ∧ x.rank = infiniteMagnitude) := by
  have hle := isNaN_eq_false_iff.mp hnum
  have hge := mt isFinite_iff.mpr h
  have hm : x.magnitude = infiniteMagnitude := by omega
  rw [toEReal, if_neg h, rank, hm]
  by_cases hs : x.isNegative = true
  · exact .inl ⟨if_pos hs, if_pos hs⟩
  · exact .inr ⟨if_neg hs, if_neg hs⟩

theorem toEReal_lt_of_rank_lt {x y : Binary64} (hx : x.isNaN = false) (hy : y.isNaN = false)
    (h : x.rank < y.rank) : x.toEReal < y.toEReal := by
  have hxm := isNaN_eq_false_iff.mp hx
  have hym := isNaN_eq_false_iff.mp hy
  rw [magnitude_eq_natAbs_rank] at hxm hym
  by_cases hxf : x.isFinite = true
  · rw [toEReal_of_isFinite hxf]
    by_cases hyf : y.isFinite = true
    · rw [toEReal_of_isFinite hyf, EReal.coe_lt_coe_iff, Rat.cast_lt]
      exact toRat_lt_iff.mpr h
    · rcases infinite_cases hy hyf with ⟨-, hrank⟩ | ⟨htop, -⟩
      · omega
      · rw [htop]
        exact EReal.coe_lt_top _
  · rcases infinite_cases hx hxf with ⟨hbot, hrank⟩ | ⟨-, hrank⟩
    · rw [hbot]
      by_cases hyf : y.isFinite = true
      · rw [toEReal_of_isFinite hyf]
        exact EReal.bot_lt_coe _
      · rcases infinite_cases hy hyf with ⟨-, hrank'⟩ | ⟨htop, -⟩
        · omega
        · rw [htop]
          exact bot_lt_top
    · omega

theorem toEReal_eq_of_rank_eq {x y : Binary64} (hx : x.isNaN = false) (hy : y.isNaN = false)
    (h : x.rank = y.rank) : x.toEReal = y.toEReal := by
  have hm : x.magnitude = y.magnitude := by
    rw [magnitude_eq_natAbs_rank, magnitude_eq_natAbs_rank, h]
  by_cases hxf : x.isFinite = true
  · have hyf : y.isFinite = true := isFinite_iff.mpr (hm ▸ isFinite_iff.mp hxf)
    rw [toEReal_of_isFinite hxf, toEReal_of_isFinite hyf, toRat_inj.mpr h]
  · have hyf : ¬ y.isFinite = true := fun hyf => hxf (isFinite_iff.mpr (hm ▸ isFinite_iff.mp hyf))
    have hpos : 0 < infiniteMagnitude := by decide
    rcases infinite_cases hx hxf with ⟨hvalue, hrank⟩ | ⟨hvalue, hrank⟩ <;>
      rcases infinite_cases hy hyf with ⟨hvalue', hrank'⟩ | ⟨hvalue', hrank'⟩
    · rw [hvalue, hvalue']
    · omega
    · omega
    · rw [hvalue, hvalue']

/-- **Numbers are in the order of their ranks.** -/
theorem toEReal_lt_iff {x y : Binary64} (hx : x.isNaN = false) (hy : y.isNaN = false) :
    x.toEReal < y.toEReal ↔ x.rank < y.rank := by
  refine ⟨fun h => ?_, toEReal_lt_of_rank_lt hx hy⟩
  rcases lt_trichotomy x.rank y.rank with hlt | heq | hgt
  · exact hlt
  · exact absurd h (toEReal_eq_of_rank_eq hx hy heq).not_lt
  · exact absurd h (toEReal_lt_of_rank_lt hy hx hgt).not_gt

theorem toEReal_inj {x y : Binary64} (hx : x.isNaN = false) (hy : y.isNaN = false) :
    x.toEReal = y.toEReal ↔ x.rank = y.rank := by
  refine ⟨fun h => ?_, toEReal_eq_of_rank_eq hx hy⟩
  rcases lt_trichotomy x.rank y.rank with hlt | heq | hgt
  · exact absurd h (toEReal_lt_of_rank_lt hx hy hlt).ne
  · exact heq
  · exact absurd h (toEReal_lt_of_rank_lt hy hx hgt).ne'

/-- **Doubles are compared by their values.** -/
theorem lt_eq_true_iff {x y : Binary64} :
    x.lt y = true ↔ x.isNaN = false ∧ y.isNaN = false ∧ x.toEReal < y.toEReal := by
  rw [lt, Bool.and_eq_true, Bool.and_eq_true, Bool.not_eq_true', Bool.not_eq_true',
    decide_eq_true_iff, and_assoc]
  refine and_congr_right fun hx => and_congr_right fun hy => ?_
  exact (toEReal_lt_iff hx hy).symm

theorem numEq_eq_true_iff {x y : Binary64} :
    x.numEq y = true ↔ x.isNaN = false ∧ y.isNaN = false ∧ x.toEReal = y.toEReal := by
  rw [numEq, Bool.and_eq_true, Bool.and_eq_true, Bool.not_eq_true', Bool.not_eq_true',
    decide_eq_true_iff, and_assoc]
  refine and_congr_right fun hx => and_congr_right fun hy => ?_
  exact (toEReal_inj hx hy).symm

/-- Finite numbers of one sign are equal if their magnitudes are. -/
theorem numEq_ofMagnitude (negative : Bool) {x y : ℕ} (hx : x < infiniteMagnitude)
    (hy : y < infiniteMagnitude) :
    (ofMagnitude negative x).numEq (ofMagnitude negative y) = true ↔ x = y := by
  have hx' := hx.trans infiniteMagnitude_lt
  have hy' := hy.trans infiniteMagnitude_lt
  simp only [numEq, isNaN, rank, magnitude_ofMagnitude _ hx', magnitude_ofMagnitude _ hy',
    isNegative_ofMagnitude _ hx', isNegative_ofMagnitude _ hy']
  cases negative <;> simp <;> omega

end Rulebook.Binary64
