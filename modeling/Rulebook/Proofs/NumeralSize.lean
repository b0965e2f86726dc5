import Mathlib.Algebra.Order.Field.Power
import Rulebook.Number.Stepwise
import Rulebook.Proofs.Rounding

/-! # How large a numeral is

The size of a numeral is its digits as one number, scaled by a power of ten (`Numeral.size`).  The
first digits of a number, and how many follow, tell it up to the last digit that is kept
(`Digit.natOf_bounds`).  Two things rest on this.  The length of the digits decides rightly where no
power of ten is computed (`nearestMagnitude_cases`), so the magnitude of a literal is always nearest
to its size (`nearest_size`).  And the word that is filled with the first digits, scaled by the
digits that are left, is near to the size (`near_size_word`).
-/
namespace Rulebook

namespace Digit

theorem natOf_append (w : ℕ) (ds es : List Digit) :
    natOf w (ds ++ es) = natOf (natOf w ds) es :=
  List.foldl_append

/-- The digits that follow a number leave it where it is, up to its last digit. -/
theorem natOf_bounds (w : ℕ) (ds : List Digit) :
    w * 10 ^ ds.length ≤ natOf w ds ∧ natOf w ds < (w + 1) * 10 ^ ds.length := by
  induction ds generalizing w with
  | nil => simp [natOf]
  | cons d ds ih =>
    obtain ⟨hlow, hhigh⟩ := ih (10 * w + d.val)
    have hd := d.isLt
    rw [List.length_cons, pow_succ']
    constructor
    · calc w * (10 * 10 ^ ds.length) = (10 * w) * 10 ^ ds.length := by ring
        _ ≤ (10 * w + d.val) * 10 ^ ds.length := Nat.mul_le_mul_right _ (Nat.le_add_right _ _)
        _ ≤ natOf w (d :: ds) := hlow
    · calc natOf w (d :: ds) < (10 * w + d.val + 1) * 10 ^ ds.length := hhigh
        _ ≤ (10 * (w + 1)) * 10 ^ ds.length := Nat.mul_le_mul_right _ (by omega)
        _ = (w + 1) * (10 * 10 ^ ds.length) := by ring

/-- The same where the number that is told apart by `k` digits is scaled by a power of ten. -/
theorem natOf_scaled_bounds (w : ℕ) (ds : List Digit) (s : ℤ) :
    (w : ℚ) * 10 ^ s ≤ natOf w ds * 10 ^ (s - ds.length) ∧
      natOf w ds * (10 : ℚ) ^ (s - ds.length) ≤ (w + 1) * 10 ^ s := by
  obtain ⟨hlow, hhigh⟩ := natOf_bounds w ds
  have hlow : (w : ℚ) * 10 ^ ds.length ≤ natOf w ds := by exact_mod_cast hlow
  have hhigh : (natOf w ds : ℚ) ≤ (w + 1) * 10 ^ ds.length := by exact_mod_cast hhigh.le
  have hsplit : (10 : ℚ) ^ s = 10 ^ ds.length * 10 ^ (s - ds.length) := by
    rw [← zpow_natCast, ← zpow_add₀ (by norm_num), add_sub_cancel]
  have hpos : (0 : ℚ) ≤ 10 ^ (s - ds.length) := by positivity
  rw [hsplit, ← mul_assoc, ← mul_assoc]
  exact ⟨mul_le_mul_of_nonneg_right hlow hpos, mul_le_mul_of_nonneg_right hhigh hpos⟩

/-- Idle zeros in front do not count. -/
theorem natOf_dropWhile_zero (ds : List Digit) : natOf 0 (ds.dropWhile (· = 0)) = natOf 0 ds := by
  induction ds with
  | nil => rfl
  | cons d ds ih =>
    rw [List.dropWhile_cons]
    split
    · rename_i hd
      rw [ih, of_decide_eq_true hd]
      rfl
    · rfl

end Digit

namespace Numeral

variable (n : Numeral)

theorem mantissa_eq : n.mantissa = Digit.natOf 0 (n.whole ++ n.fraction) :=
  (Digit.natOf_append 0 n.whole n.fraction).symm

/-- The length of the mantissa bounds it on both sides. -/
theorem mantissa_bounds (h : n.mantissa ≠ 0) :
    ∃ l, n.mantissaLength = l + 1 ∧ 10 ^ l ≤ n.mantissa ∧ n.mantissa < 10 ^ (l + 1) := by
  rw [mantissa_eq, ← Digit.natOf_dropWhile_zero] at h ⊢
  unfold mantissaLength
  cases hds : (n.whole ++ n.fraction).dropWhile (· = 0) with
  | nil =>
    rw [hds] at h
    exact absurd rfl h
  | cons d ds =>
    have hd : d ≠ 0 := by
      have := List.head?_dropWhile_not (· = (0 : Digit)) (n.whole ++ n.fraction)
      simpa [hds] using this
    have hpos : 1 ≤ d.val := Nat.one_le_iff_ne_zero.mpr fun hz => hd (Fin.ext hz)
    have hlow := (Digit.natOf_bounds (10 * 0 + d.val) ds).1
    have hhigh := (Digit.natOf_bounds 0 (d :: ds)).2
    refine ⟨ds.length, rfl, ?_, by simpa using hhigh⟩
    calc 10 ^ ds.length = 1 * 10 ^ ds.length := (Nat.one_mul _).symm
      _ ≤ (10 * 0 + d.val) * 10 ^ ds.length := Nat.mul_le_mul_right _ (by omega)
      _ ≤ Digit.natOf 0 (d :: ds) := hlow

/-! ## The size of a numeral -/

theorem ten_zpow_of_nonneg {e : ℤ} (h : 0 ≤ e) : (10 : ℚ) ^ e = 10 ^ e.toNat := by
  rw [← zpow_natCast, Int.toNat_of_nonneg h]

theorem ten_zpow_of_nonpos {e : ℤ} (h : e ≤ 0) : (10 : ℚ) ^ e = (10 ^ e.natAbs)⁻¹ := by
  rw [← zpow_natCast, ← zpow_neg, Int.ofNat_natAbs_of_nonpos h, neg_neg]

/-- How large a numeral is, its sign left out. -/
def size : ℚ := n.mantissa * 10 ^ n.scale

theorem size_nonneg : 0 ≤ n.size := mul_nonneg (Nat.cast_nonneg _) (by positivity)

theorem size_bounds (h : n.mantissa ≠ 0) :
    10 ^ (n.mantissaLength + n.scale - 1) ≤ n.size ∧
      n.size < 10 ^ (n.mantissaLength + n.scale) := by
  obtain ⟨l, hl, hlow, hhigh⟩ := n.mantissa_bounds h
  have hpos : (0 : ℚ) < 10 ^ n.scale := by positivity
  have hlow : (10 : ℚ) ^ l ≤ n.mantissa := by exact_mod_cast hlow
  have hhigh : (n.mantissa : ℚ) < 10 ^ (l + 1) := by exact_mod_cast hhigh
  have hexp : (n.mantissaLength : ℤ) + n.scale - 1 = l + n.scale := by omega
  rw [hexp, zpow_add₀ (by norm_num), zpow_add₀ (by norm_num), zpow_natCast, zpow_natCast, hl, size]
  exact ⟨mul_le_mul_of_nonneg_right hlow hpos.le, mul_lt_mul_of_pos_right hhigh hpos⟩

open Binary64

/-- The last binade of the finite numbers begins below their last power of ten. -/
theorem two_pow_le_ten_pow : (2 : ℚ) ^ 1023 ≤ 10 ^ 308 := calc
  (2 : ℚ) ^ 1023 = (2 ^ 93) ^ 11 := by rw [← pow_mul]
  _ ≤ (10 ^ 28) ^ 11 := pow_le_pow_left₀ (by positivity) (by norm_num) 11
  _ = 10 ^ 308 := by rw [← pow_mul]

/-- A number of 310 digits is far beyond the finite ones. -/
theorem two_mul_units_infinite_le :
    (2 * units infiniteMagnitude : ℚ) ≤ 10 ^ 309 * unitScale := by
  have hinfinite : (units infiniteMagnitude : ℚ) = 2 ^ 1024 * unitScale := by
    rw [unitScale_eq_pow, ← pow_add]
    exact units_mul_perBinade 2046
  have hpow : (2 * 2 ^ 1024 : ℚ) ≤ 10 ^ 309 := calc
    (2 * 2 ^ 1024 : ℚ) = 2 ^ 1023 * 2 ^ 2 := by rw [← pow_succ', ← pow_add]
    _ ≤ 10 ^ 308 * 10 := mul_le_mul two_pow_le_ten_pow (by norm_num) (by norm_num) (by positivity)
    _ = 10 ^ 309 := (pow_succ 10 308).symm
  rw [hinfinite, ← mul_assoc]
  exact mul_le_mul_of_nonneg_right hpow (le_of_lt unitScale_pos)

/-- A unit is larger than the 324th power of a tenth. -/
theorem unitScale_lt : unitScale < 10 ^ 324 := calc
  unitScale = 2 ^ 1023 * 2 ^ 51 := by rw [unitScale_eq_pow, ← pow_add]
  _ ≤ 10 ^ 308 * 2 ^ 51 := mul_le_mul_of_nonneg_right two_pow_le_ten_pow (by positivity)
  _ < 10 ^ 308 * 10 ^ 16 := mul_lt_mul_of_pos_left (by norm_num) (by positivity)
  _ = 10 ^ 324 := by rw [← pow_add]

/-- **How the magnitude of a literal is found.**  It is zero or infinity where the length of the
digits tells so much, and else rounded from a ratio that is the size. -/
theorem nearestMagnitude_cases :
    (n.nearestMagnitude = 0 ∧ n.size * unitScale < 1 / 2) ∨
      (n.nearestMagnitude = infiniteMagnitude ∧
        (units infiniteMagnitude : ℚ) ≤ n.size * unitScale) ∨
      ∃ num den : ℕ, 0 < den ∧ n.nearestMagnitude = Binary64.nearestMagnitude num den ∧
        num * unitScale / den = n.size * unitScale := by
  have hunits := unitScale_pos
  unfold nearestMagnitude
  split
  · rename_i hm
    exact .inl ⟨rfl, by simp [size, hm]⟩
  rename_i hm
  obtain ⟨hlow, hhigh⟩ := n.size_bounds hm
  split
  · rename_i hlarge
    refine .inr (.inl ⟨rfl, ?_⟩)
    have hpow : (10 : ℚ) ^ 309 ≤ n.size := by
      rw [← zpow_natCast]
      exact (zpow_le_zpow_right₀ (by norm_num) (by push_cast; omega)).trans hlow
    have hle := le_trans two_mul_units_infinite_le
      (mul_le_mul_of_nonneg_right hpow hunits.le)
    linarith [Nat.cast_nonneg (α := ℚ) (units infiniteMagnitude)]
  split
  · rename_i hsmall
    refine .inl ⟨rfl, ?_⟩
    have hpow : n.size < 10 ^ (-330 : ℤ) :=
      hhigh.trans_le (zpow_le_zpow_right₀ (by norm_num) (by omega))
    calc n.size * unitScale ≤ 10 ^ (-330 : ℤ) * 10 ^ 324 :=
          mul_le_mul hpow.le (le_of_lt unitScale_lt) hunits.le (by positivity)
      _ = 10 ^ (-6 : ℤ) := by rw [← zpow_natCast, ← zpow_add₀ (by norm_num)]; norm_num
      _ < 1 / 2 := by norm_num
  split
  · rename_i hs
    refine .inr (.inr ⟨n.mantissa * Nat.pow 10 n.scale.toNat, 1, Nat.one_pos, rfl, ?_⟩)
    rw [Nat.pow_eq, Nat.cast_mul, Nat.cast_pow, Nat.cast_ofNat, Nat.cast_one, div_one, size,
      ten_zpow_of_nonneg hs]
  · rename_i hs
    refine .inr (.inr ⟨n.mantissa, Nat.pow 10 n.scale.natAbs, Nat.pow_pos (by decide), rfl, ?_⟩)
    rw [Nat.pow_eq, Nat.cast_pow, Nat.cast_ofNat, size, ten_zpow_of_nonpos (by omega),
      mul_right_comm, ← div_eq_mul_inv]

/-- **The magnitude of a literal is nearest to its size.** -/
theorem nearest_size : Nearest n.nearestMagnitude (n.size * unitScale) := by
  rcases n.nearestMagnitude_cases with ⟨hm, hsmall⟩ | ⟨hm, hlarge⟩ | ⟨num, den, hden, hm, hsize⟩
  · rw [hm]
    exact (nearest_iff_eq_zero (mul_unitScale_nonneg n.size_nonneg) hsmall).mpr rfl
  · rw [hm]
    exact (nearest_iff_eq_infinite hlarge).mpr rfl
  · rw [hm, ← hsize]
    exact nearest_nearestMagnitude num hden

/-! ## The word of the first digits -/

/-- A word takes digits off the front, and spells them behind what it holds. -/
theorem exists_taken_fillWord (w : ℕ) (ds : List Digit) :
    ∃ taken, ds = taken ++ (fillWord w ds).2 ∧ (fillWord w ds).1 = Digit.natOf w taken := by
  induction ds generalizing w with
  | nil => exact ⟨[], rfl, rfl⟩
  | cons d ds ih =>
    rw [fillWord]
    split
    · obtain ⟨taken, hds, hword⟩ := ih (10 * w + d.val)
      exact ⟨d :: taken, by rw [List.cons_append, ← hds], hword⟩
    · exact ⟨[], rfl, rfl⟩

/-- A word that leaves a digit is full. -/
theorem le_of_fillWord_ne_nil {w : ℕ} {ds : List Digit} (h : (fillWord w ds).2 ≠ []) :
    2 ^ 60 ≤ (fillWord w ds).1 := by
  induction ds generalizing w with
  | nil => exact absurd rfl h
  | cons d ds ih =>
    rw [fillWord] at h ⊢
    split
    · rename_i hd
      rw [if_pos hd] at h
      exact ih h
    · rename_i hd
      have := d.isLt
      simp only [Nat.pow_eq] at hd ⊢
      omega

theorem fillWord_lt {w : ℕ} (hw : w < 2 ^ 64) (ds : List Digit) : (fillWord w ds).1 < 2 ^ 64 := by
  induction ds generalizing w with
  | nil => exact hw
  | cons d ds ih =>
    rw [fillWord]
    split
    · rename_i hd
      exact ih hd
    · exact hw

/-- Digits that fit are taken all. -/
theorem fillWord_of_lt {w : ℕ} {ds : List Digit} (h : Digit.natOf w ds < 2 ^ 64) :
    fillWord w ds = (Digit.natOf w ds, []) := by
  induction ds generalizing w with
  | nil => rfl
  | cons d ds ih =>
    have hle := (Digit.natOf_bounds (10 * w + d.val) ds).1
    have hd : 10 * w + d.val < Nat.pow 2 64 :=
      (Nat.le_mul_of_pos_right _ (by positivity)).trans_lt (hle.trans_lt h)
    rw [fillWord, if_pos hd]
    exact ih h

/-- The word that is filled with the first digits of a numeral. -/
def word : ℕ := (fillWord (fillWord 0 n.whole).1 n.fraction).1

/-- The power of ten that the word is to be scaled by. -/
def wordScale : ℤ :=
  n.exponent.getD 0 + (fillWord 0 n.whole).2.length -
    (n.fraction.length - (fillWord (fillWord 0 n.whole).1 n.fraction).2.length : ℕ)

theorem word_lt : n.word < 2 ^ 64 := fillWord_lt (fillWord_lt (by decide) _) _

/-- Two ratios with the same full word in front are near. -/
theorem near_of_bounds {w : ℕ} (hw : 2 ^ 60 ≤ w) {p a b : ℚ} (hp : 0 ≤ p)
    (ha : w * p ≤ a ∧ a ≤ (w + 1) * p) (hb : w * p ≤ b ∧ b ≤ (w + 1) * p) :
    Near (1 - 1 / 2 ^ 60) 0 a b := by
  have hw : (2 ^ 60 : ℚ) ≤ w := by exact_mod_cast hw
  have hstep : (1 - 1 / 2 ^ 60) * ((w + 1) * p) ≤ w * p := by
    rw [← mul_assoc]
    exact mul_le_mul_of_nonneg_right (by linarith) hp
  constructor
  · linarith [mul_le_mul_of_nonneg_left ha.2 (by norm_num : (0 : ℚ) ≤ 1 - 1 / 2 ^ 60)]
  · linarith [mul_le_mul_of_nonneg_left hb.2 (by norm_num : (0 : ℚ) ≤ 1 - 1 / 2 ^ 60)]

/-- The digits that the whole part leaves go on in the fraction. -/
theorem size_eq : n.size =
    Digit.natOf (fillWord 0 n.whole).1 ((fillWord 0 n.whole).2 ++ n.fraction) *
      10 ^ (n.exponent.getD 0 + (fillWord 0 n.whole).2.length -
        ((fillWord 0 n.whole).2 ++ n.fraction).length : ℤ) := by
  obtain ⟨taken, hwhole, hw⟩ := exists_taken_fillWord 0 n.whole
  have hmantissa : n.mantissa =
      Digit.natOf (fillWord 0 n.whole).1 ((fillWord 0 n.whole).2 ++ n.fraction) := by
    rw [hw, ← Digit.natOf_append, ← List.append_assoc, ← hwhole, mantissa_eq]
  rw [size, hmantissa, scale, List.length_append]
  congr 2
  push_cast
  ring

/-- **The scaled word is near to the numeral.** -/
theorem near_size_word : Near (1 - 1 / 2 ^ 60) 0 (n.word * 10 ^ n.wordScale) n.size := by
  obtain ⟨taken, hfraction, hword⟩ := exists_taken_fillWord (fillWord 0 n.whole).1 n.fraction
  have hlength := congrArg List.length hfraction
  rw [List.length_append] at hlength
  have hscale : n.wordScale =
      n.exponent.getD 0 + (fillWord 0 n.whole).2.length - taken.length := by
    unfold wordScale
    omega
  rw [size_eq]
  by_cases hleft : (fillWord 0 n.whole).2 = []
  · -- the word goes on into the fraction, and is exact unless it is full there
    generalize hrest : (fillWord (fillWord 0 n.whole).1 n.fraction).2 = rest at *
    have hnat : Digit.natOf (fillWord 0 n.whole).1 n.fraction = Digit.natOf n.word rest := by
      rw [word, hword, ← Digit.natOf_append, ← hfraction]
    have hexp : n.exponent.getD 0 + ([] : List Digit).length - n.fraction.length =
        n.wordScale - rest.length := by
      rw [hscale, hleft]
      omega
    rw [hleft, List.nil_append, hnat, hexp]
    have hbounds := Digit.natOf_scaled_bounds n.word rest n.wordScale
    by_cases hnil : rest = []
    · rw [hnil, Digit.natOf, List.foldl_nil, List.length_nil, Nat.cast_zero, sub_zero]
      exact .refl (by norm_num) (by positivity)
    · have hfull : 2 ^ 60 ≤ n.word := le_of_fillWord_ne_nil (hrest ▸ hnil)
      exact near_of_bounds hfull (by positivity) ⟨le_rfl, by gcongr; linarith⟩ hbounds
  · -- the word is full before the point, though the next digits may still fit into it
    have hfull := le_of_fillWord_ne_nil hleft
    rw [word, hword, hscale]
    exact near_of_bounds hfull (by positivity) (Digit.natOf_scaled_bounds _ taken _)
      (Digit.natOf_scaled_bounds _ _ _)

end Numeral

end Rulebook
