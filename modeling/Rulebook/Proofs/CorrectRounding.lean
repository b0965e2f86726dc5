import Rulebook.Proofs.DoubleValues
import Rulebook.Proofs.NumeralSize

/-! # Numerals are rounded correctly

A ratio *rounds* to a finite double if it lies less than half a step beyond the largest finite
number, no finite double is nearer to it, and the last digit of the double is even where another one
is as near (`Binary64.RoundsTo`).  For a double of the right sign this is a fact about magnitudes
(`Binary64.roundsTo_iff`), so the double nearest to a numeral is the one that the value of the
numeral rounds to (`Numeral.roundsTo_value_iff`), and it is finite if the value is small enough
(`Numeral.nearestMagnitude_lt_iff`).

Nothing of the spelling is left in the result but its value and the sign of a zero: numerals of one
value have one rank (`Numeral.rank_nearest_eq`).
-/
namespace Rulebook

namespace Binary64

/-- Half a step beyond the largest finite double. -/
def overflow : ℚ := (2 ^ 54 - 1) * 2 ^ 970

/-- The ratio rounds to the finite double. -/
structure RoundsTo (v : ℚ) (x : Binary64) : Prop where
  isFinite : x.isFinite = true
  lt_overflow : |v| < overflow
  nearest : ∀ y : Binary64, y.isFinite = true → |x.toRat - v| ≤ |y.toRat - v|
  even : ∀ y : Binary64, y.isFinite = true → |x.toRat - v| = |y.toRat - v| → y.toRat ≠ x.toRat →
    Even x.magnitude

theorem two_mul_overflow :
    2 * (overflow * unitScale) = units (infiniteMagnitude - 1) + units infiniteMagnitude := by
  have hpow : (2 : ℚ) ^ 2045 = 2 * (2 ^ 970 * 2 ^ 1074) := by
    rw [← pow_add, ← pow_succ']
  rw [units_last, units_infinite, overflow, unitScale_eq_pow, hpow]
  -- the powers are too large to be computed
  generalize (2 : ℚ) ^ 970 = a, (2 : ℚ) ^ 1074 = b
  ring

/-- The magnitudes that are rounded to finite ones are those below the overflow. -/
theorem NearestEven.lt_infinite_iff_lt_overflow {m : ℕ} {v : ℚ}
    (h : NearestEven m (v * unitScale)) : m < infiniteMagnitude ↔ v < overflow := by
  rw [h.lt_infinite_iff, ← two_mul_overflow, mul_lt_mul_iff_right₀ (by norm_num),
    mul_lt_mul_iff_left₀ unitScale_pos]

section

variable {x y : Binary64} {q : ℚ}

/-- A double of the same sign is as far from a ratio as its magnitude is, in units. -/
theorem abs_toRat_sub (h : y.isNegative = x.isNegative) :
    |y.toRat - signed x.isNegative (q / unitScale)| = |units y.magnitude - q| / unitScale := by
  rw [toRat, h, abs_signed_sub, ← sub_div, abs_div, abs_of_pos unitScale_pos]

/-- A double of the other sign is farther away than zero. -/
theorem abs_toRat_sub_of_ne (h : y.isNegative ≠ x.isNegative) (hq : 0 ≤ q) :
    |y.toRat - signed x.isNegative (q / unitScale)| = (units y.magnitude + q) / unitScale := by
  have hpos := unitScale_pos
  rw [toRat, abs_signed_sub_of_ne h (by positivity) (by positivity), ← add_div]

theorem toRat_ne_of_magnitude_ne (h : y.magnitude ≠ x.magnitude) : y.toRat ≠ x.toRat := by
  intro heq
  have hrank := toRat_inj.mp heq
  rw [magnitude_eq_natAbs_rank, magnitude_eq_natAbs_rank, hrank] at h
  exact h rfl

/-- If a ratio rounds to a double of its sign, the magnitude is the nearest one. -/
theorem RoundsTo.nearestEven (h : RoundsTo (signed x.isNegative (q / unitScale)) x)
    (hq : 0 ≤ q) : NearestEven x.magnitude q := by
  have hpos := unitScale_pos
  have hcompare : ∀ k, k < infiniteMagnitude → ∃ y : Binary64, y.isFinite = true ∧
      y.magnitude = k ∧ |y.toRat - signed x.isNegative (q / unitScale)| =
        |units k - q| / unitScale := by
    intro k hk
    have hk' := hk.trans infiniteMagnitude_lt
    have hm := magnitude_ofMagnitude x.isNegative hk'
    refine ⟨ofMagnitude x.isNegative k, isFinite_iff.mpr (by rwa [hm]), hm, ?_⟩
    rw [abs_toRat_sub (isNegative_ofMagnitude x.isNegative hk'), hm]
  intro k
  by_cases hk : k < infiniteMagnitude
  · obtain ⟨y, hy, rfl, hdist⟩ := hcompare k hk
    have hle := h.nearest y hy
    rw [abs_toRat_sub rfl, hdist, div_le_div_iff_of_pos_right hpos] at hle
    rcases lt_or_eq_of_le hle with hlt | heq
    · exact .inl hlt
    · by_cases hm : y.magnitude = x.magnitude
      · exact .inr ⟨heq, .inl hm⟩
      · refine .inr ⟨heq, .inr (h.even y hy ?_ (toRat_ne_of_magnitude_ne hm))⟩
        rw [abs_toRat_sub rfl, hdist, heq]
  · -- beyond the finite magnitudes all are farther away than the last finite one
    obtain ⟨y, hy, hm, hdist⟩ := hcompare (infiniteMagnitude - 1) (by decide)
    have hle := h.nearest y hy
    rw [abs_toRat_sub rfl, hdist, div_le_div_iff_of_pos_right hpos] at hle
    have hbelow : 2 * q < units (infiniteMagnitude - 1) + units infiniteMagnitude := by
      have hlt := h.lt_overflow
      rw [abs_signed, abs_of_nonneg (by positivity), div_lt_iff₀ hpos] at hlt
      rw [← two_mul_overflow]
      linarith
    have hstep := cast_units_lt (by decide : infiniteMagnitude - 1 < infiniteMagnitude)
    have hmono : (units infiniteMagnitude : ℚ) ≤ units k :=
      Nat.cast_le.mpr (units_strictMono.monotone (not_lt.mp hk))
    left
    calc |(units x.magnitude : ℚ) - q| ≤ |(units (infiniteMagnitude - 1) : ℚ) - q| := hle
      _ < units k - q := by rw [abs_lt]; constructor <;> linarith
      _ ≤ |(units k : ℚ) - q| := le_abs_self _

/-- If a finite magnitude is the nearest one, a ratio of its sign rounds to the double. -/
theorem NearestEven.roundsTo (h : NearestEven x.magnitude q) (hx : x.isFinite = true)
    (hq : 0 ≤ q) : RoundsTo (signed x.isNegative (q / unitScale)) x := by
  have hpos := unitScale_pos
  have hzero : |(units x.magnitude : ℚ) - q| ≤ q := by
    have hle := h.le 0
    rwa [units_zero, Nat.cast_zero, zero_sub, abs_neg, abs_of_nonneg hq] at hle
  refine ⟨hx, ?_, ?_, ?_⟩
  · have hscaled : q = q / unitScale * unitScale := (div_mul_cancel₀ q hpos.ne').symm
    rw [hscaled] at h
    rw [abs_signed, abs_of_nonneg (by positivity)]
    exact h.lt_infinite_iff_lt_overflow.mp (isFinite_iff.mp hx)
  · intro y _
    rw [abs_toRat_sub rfl]
    by_cases hs : y.isNegative = x.isNegative
    · rw [abs_toRat_sub hs, div_le_div_iff_of_pos_right hpos]
      exact h.le y.magnitude
    · rw [abs_toRat_sub_of_ne hs hq, div_le_div_iff_of_pos_right hpos]
      linarith [Nat.cast_nonneg (α := ℚ) (units y.magnitude)]
  · intro y _ hdist hne
    rw [abs_toRat_sub rfl] at hdist
    by_cases hs : y.isNegative = x.isNegative
    · rw [abs_toRat_sub hs, div_left_inj' hpos.ne'] at hdist
      exact h.even_of_tie (fun hm => hne (congrArg toRat (eq_of_isNegative_magnitude hs hm))) hdist
    · -- across zero only zero itself can be as near
      rw [abs_toRat_sub_of_ne hs hq, div_left_inj' hpos.ne'] at hdist
      have hy : (units y.magnitude : ℚ) = 0 :=
        le_antisymm (by linarith) (Nat.cast_nonneg _)
      refine h.even_of_tie (k := 0) (fun hm => hne ?_) ?_
      · rw [toRat, toRat, hy, ← hm, units_zero, Nat.cast_zero, zero_div]
        simp [signed]
      · refine le_antisymm (h.le 0) ?_
        rw [units_zero, Nat.cast_zero, zero_sub, abs_neg, abs_of_nonneg hq]
        linarith

/-- **A ratio rounds to a finite double of its sign exactly if the magnitude is nearest.** -/
theorem roundsTo_iff (hq : 0 ≤ q) : RoundsTo (signed x.isNegative (q / unitScale)) x ↔
    x.isFinite = true ∧ NearestEven x.magnitude q :=
  ⟨fun h => ⟨h.isFinite, h.nearestEven hq⟩, fun ⟨hx, h⟩ => h.roundsTo hx hq⟩

end

end Binary64

open Binary64

namespace Numeral

variable (n : Numeral)

/-- The exact value of a numeral. -/
def value : ℚ := signed n.negative n.size

theorem abs_value : |n.value| = n.size := by
  rw [value, abs_signed, abs_of_nonneg n.size_nonneg]

theorem nearestMagnitude_le : n.nearestMagnitude ≤ infiniteMagnitude := by
  obtain ⟨r, -, hm⟩ := n.nearest_size
  rw [hm]
  exact min_le_left _ _

theorem isNegative_nearest : n.nearest.isNegative = n.negative :=
  isNegative_ofMagnitude _ (n.nearestMagnitude_le.trans_lt infiniteMagnitude_lt)

theorem magnitude_nearest : n.nearest.magnitude = n.nearestMagnitude :=
  magnitude_ofMagnitude _ (n.nearestMagnitude_le.trans_lt infiniteMagnitude_lt)

theorem isFinite_nearest :
    n.nearest.isFinite = true ↔ n.nearestMagnitude < infiniteMagnitude := by
  rw [isFinite_iff, magnitude_nearest]

/-- **The magnitude of a literal is rounded correctly.** -/
theorem rounded_size : Rounded n.nearestMagnitude (n.size * unitScale) := by
  have hsize := mul_unitScale_nonneg n.size_nonneg
  rcases n.nearestMagnitude_cases with ⟨hm, hsmall⟩ | ⟨hm, hlarge⟩ | ⟨num, den, hden, hm, hratio⟩
  · exact ⟨0, nearestEven_zero hsize hsmall, by rw [hm, Nat.min_zero]⟩
  · obtain ⟨r, hr⟩ := exists_nearestEven hsize
    refine ⟨r, hr, ?_⟩
    have hbeyond : ¬ r < infiniteMagnitude := by
      rw [hr.lt_infinite_iff]
      linarith [cast_units_lt (by decide : infiniteMagnitude - 1 < infiniteMagnitude)]
    rw [hm, min_eq_left (not_lt.mp hbeyond)]
  · rw [hm, ← hratio]
    exact rounded_nearestMagnitude num hden

/-- A numeral is rounded to a finite number exactly if its value is below the overflow. -/
theorem nearestMagnitude_lt_iff :
    n.nearestMagnitude < infiniteMagnitude ↔ |n.value| < overflow := by
  obtain ⟨r, hr, hm⟩ := n.rounded_size
  rw [abs_value, ← hr.lt_infinite_iff_lt_overflow, hm]
  omega

/-- **The value of a numeral rounds to the double nearest to it, and to no other** of its sign. -/
theorem roundsTo_value_iff {x : Binary64} (hs : x.isNegative = n.negative) :
    RoundsTo n.value x ↔ n.nearestMagnitude < infiniteMagnitude ∧ n.nearest = x := by
  have hvalue : n.value = signed x.isNegative (n.size * unitScale / unitScale) := by
    rw [mul_div_cancel_right₀ _ unitScale_pos.ne', hs, value]
  obtain ⟨r, hr, hm⟩ := n.rounded_size
  rw [hvalue, roundsTo_iff (mul_unitScale_nonneg n.size_nonneg), isFinite_iff]
  constructor
  · rintro ⟨hx, hnear⟩
    obtain rfl := hnear.unique hr
    rw [min_eq_right hx.le] at hm
    refine ⟨by rwa [hm], eq_of_isNegative_magnitude ?_ ?_⟩
    · rw [isNegative_nearest, hs]
    · rw [magnitude_nearest, hm]
  · rintro ⟨hlt, rfl⟩
    have hr' : n.nearestMagnitude = r := by omega
    rw [magnitude_nearest]
    exact ⟨hlt, hr' ▸ hr⟩

/-- **Numerals of one value are rounded to numbers of one rank.** -/
theorem rank_nearest_eq {n n' : Numeral} (h : n.value = n'.value) :
    n.nearest.rank = n'.nearest.rank := by
  have hsize : n.size = n'.size := by rw [← abs_value, h, abs_value]
  have hm : n.nearestMagnitude = n'.nearestMagnitude := by
    obtain ⟨r, hr, hm⟩ := n.rounded_size
    obtain ⟨r', hr', hm'⟩ := n'.rounded_size
    rw [hsize] at hr
    rw [hm, hm', hr.unique hr']
  by_cases hs : n.negative = n'.negative
  · rw [rank, rank, isNegative_nearest, isNegative_nearest, magnitude_nearest, magnitude_nearest,
      hs, hm]
  · -- only zero has one value with both signs
    have hzero : n'.size = 0 := by
      have hdist := abs_signed_sub_of_ne hs n.size_nonneg n'.size_nonneg
      rw [← value, ← value, h, sub_self, abs_zero, hsize] at hdist
      linarith
    have hm' : n'.nearestMagnitude = 0 := by
      obtain ⟨r, hr, hm'⟩ := n'.rounded_size
      rw [hzero, zero_mul] at hr
      rw [hm', hr.unique (nearestEven_zero le_rfl (by norm_num)), Nat.min_zero]
    rw [rank, rank, magnitude_nearest, magnitude_nearest, hm, hm']
    simp

end Numeral

end Rulebook
