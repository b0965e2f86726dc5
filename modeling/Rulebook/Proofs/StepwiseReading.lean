import Rulebook.Proofs.NumeralSize

/-! # Reading a number in steps

Before the last step of reading a number there are at most three roundings, and each of them changes
the number by a small factor: when the word is taken for a magnitude (`near_units_word`), when a
power of ten is (`near_units_tenPower`), and when a very small number is divided a first time
(`near_units_divMagnitude_last`).  Together they lead no further than three places away from where
the exact number is rounded to (`close_of_near`).

This is shown for each way that the steps can take: one multiplication (`close_mulMagnitude`), one
division (`close_divMagnitude`), or two of them (`close_divMagnitude_divMagnitude`).  Beyond these
every number is infinite (`eq_infinite_of_lt`) or zero (`eq_zero_of_lt`).
-/
namespace Rulebook

open Binary64

/-! ## One step -/

namespace Binary64

/-- One has a full mantissa of units. -/
theorem two_pow_le_unitScale : 2 ^ 52 ≤ unitScale := by
  rw [unitScale_eq_pow]
  exact pow_le_pow_right₀ (by norm_num) (by norm_num)

theorem nearest_mulMagnitude (a b : ℕ) :
    Nearest (mulMagnitude a b) (units a * units b / unitScale) := by
  have h := nearest_nearestMagnitude (units a * units b)
    (Nat.mul_pos unitsPerOne_pos unitsPerOne_pos)
  rw [Nat.cast_mul, cast_mul_unitsPerOne, ← unitScale_eq,
    mul_div_mul_right _ _ (ne_of_gt unitScale_pos)] at h
  exact h

theorem nearest_divMagnitude (a : ℕ) {b : ℕ} (hb : 0 < units b) :
    Nearest (divMagnitude a b) (units a * unitScale / units b) :=
  nearest_nearestMagnitude (units a) hb

/-- Division by a magnitude of at least one does not lead upwards. -/
theorem divMagnitude_le (a : ℕ) {b : ℕ} (hb : unitsPerOne ≤ units b) : divMagnitude a b ≤ a := by
  have hpos : 0 < units b := lt_of_lt_of_le unitsPerOne_pos hb
  refine (nearest_divMagnitude a hpos).le_of_le_units
    (div_nonneg (mul_unitScale_nonneg (Nat.cast_nonneg _)) (Nat.cast_nonneg _)) ?_
  rw [div_le_iff₀ (Nat.cast_pos.mpr hpos), unitScale_eq]
  exact mul_le_mul_of_nonneg_left (Nat.cast_le.mpr hb) (Nat.cast_nonneg _)

theorem nearestMagnitude_zero {den : ℕ} (hden : 0 < den) : nearestMagnitude 0 den = 0 := by
  have h := nearest_nearestMagnitude 0 hden
  rw [Nat.cast_zero, zero_mul, zero_div, nearest_iff_eq_zero le_rfl (by norm_num)] at h
  exact h

end Binary64

namespace Numeral

/-- The powers of ten up to the 22nd are magnitudes themselves. -/
theorem units_tenPower_of_le : ∀ k < 23, units (tenPower k) = 10 ^ k * unitsPerOne := by
  decide +kernel

/-- The last finite power of ten lies close to its magnitude. -/
theorem units_tenPower_last :
    10 * 2 ^ 53 * units (tenPower 308) ≤
        10 * 2 ^ 53 * (10 ^ 308 * unitsPerOne) + units (tenPower 308) ∧
      10 * 2 ^ 53 * (10 ^ 308 * unitsPerOne) ≤
        10 * 2 ^ 53 * units (tenPower 308) + 10 ^ 308 * unitsPerOne := by
  decide +kernel

theorem nearest_tenPower (k : ℕ) : Nearest (tenPower k) (10 ^ k * unitScale) := by
  have h := nearest_nearestMagnitude (10 ^ k) Nat.one_pos
  rw [Nat.cast_pow, Nat.cast_ofNat, Nat.cast_one, div_one] at h
  exact h

theorem ten_pow_mul_unitsPerOne_le :
    10 ^ 308 * unitsPerOne ≤ units (infiniteMagnitude - 1) := by
  decide +kernel

theorem tenPower_lt {k : ℕ} (hk : k < 309) : tenPower k < infiniteMagnitude := by
  have hpow : 10 ^ k ≤ 10 ^ 308 := by
    apply Nat.pow_le_pow_right
    · decide
    · omega
  have hle := (Nat.mul_le_mul_right unitsPerOne hpow).trans ten_pow_mul_unitsPerOne_le
  have hle : (10 ^ k * unitScale : ℚ) ≤ units (infiniteMagnitude - 1) := by
    have hcast := Nat.cast_le (α := ℚ).mpr hle
    rwa [cast_mul_unitsPerOne, Nat.cast_pow, Nat.cast_ofNat] at hcast
  have h := (nearest_tenPower k).le_of_le_units (mul_unitScale_nonneg (by positivity)) hle
  exact h.trans_lt (by decide)

/-- **A power of ten is near to its magnitude.** -/
theorem near_units_tenPower {k : ℕ} (hk : k < 309) :
    Near (1 - 1 / 2 ^ 53) 0 (units (tenPower k)) (10 ^ k * unitScale) := by
  refine (nearest_tenPower k).near_units_of_le (tenPower_lt hk) ?_
  exact le_trans two_pow_le_unitScale
    (le_mul_of_one_le_left (le_of_lt unitScale_pos) (one_le_pow₀ (by norm_num)))

/-- A power of ten is taken for a magnitude of at least one. -/
theorem unitsPerOne_le_tenPower {k : ℕ} (hk : k < 309) : unitsPerOne ≤ units (tenPower k) := by
  cases k with
  | zero => exact (units_tenPower_of_le 0 (by decide)).ge.trans' (Nat.le_mul_of_pos_left _ one_pos)
  | succ k =>
    have hnear := (near_units_tenPower hk).2
    have hone := unitScale_pos
    have hten : (10 : ℚ) ≤ 10 ^ (k + 1) := le_self_pow₀ (by norm_num) (by omega)
    have hmul := mul_le_mul_of_nonneg_right hten hone.le
    have hle : unitScale ≤ units (tenPower (k + 1)) := by linarith
    rw [unitScale_eq] at hle
    exact Nat.cast_le.mp hle

theorem units_tenPower_pos {k : ℕ} (hk : k < 309) : 0 < units (tenPower k) :=
  lt_of_lt_of_le unitsPerOne_pos (unitsPerOne_le_tenPower hk)

theorem near_units_tenPower_last :
    Near (1 - 1 / (10 * 2 ^ 53)) 0 (units (tenPower 308)) (10 ^ 308 * unitScale) := by
  have hlast := units_tenPower_last
  have hcast := cast_mul_unitsPerOne (10 ^ 308)
  rw [Nat.cast_pow, Nat.cast_ofNat] at hcast
  rw [← hcast]
  generalize units (tenPower 308) = p at *
  generalize 10 ^ 308 * unitsPerOne = q at *
  obtain ⟨hlow, hhigh⟩ := hlast
  have hlow : (10 * 2 ^ 53 * p : ℚ) ≤ 10 * 2 ^ 53 * q + p := by exact_mod_cast hlow
  have hhigh : (10 * 2 ^ 53 * q : ℚ) ≤ 10 * 2 ^ 53 * p + q := by exact_mod_cast hhigh
  constructor <;> linarith

end Numeral

namespace Binary64

theorem nearest_word (w : ℕ) : Nearest (nearestMagnitude w 1) (w * unitScale) := by
  have h := nearest_nearestMagnitude w Nat.one_pos
  rw [Nat.cast_one, div_one] at h
  exact h

theorem nearestMagnitude_word_lt {w : ℕ} (hw : w < 2 ^ 64) :
    nearestMagnitude w 1 < infiniteMagnitude := by
  have hword : (w : ℚ) ≤ 2 ^ 64 := by exact_mod_cast hw.le
  have hle : w * unitScale ≤ units ((1086 + 1) * perBinade) := calc
    w * unitScale ≤ 2 ^ 64 * unitScale :=
      mul_le_mul_of_nonneg_right hword (le_of_lt unitScale_pos)
    _ = 2 ^ (52 + 1086) := by rw [unitScale_eq_pow, ← pow_add]
    _ = units ((1086 + 1) * perBinade) := (units_mul_perBinade 1086).symm
  have h := (nearest_word w).le_of_le_units (mul_unitScale_nonneg (Nat.cast_nonneg _)) hle
  exact h.trans_lt (by decide)

/-- **A word is near to its magnitude.** -/
theorem near_units_word {w : ℕ} (hw : w < 2 ^ 64) :
    Near (1 - 1 / 2 ^ 53) 0 (units (nearestMagnitude w 1)) (w * unitScale) := by
  rcases Nat.eq_zero_or_pos w with rfl | hpos
  · rw [nearestMagnitude_zero Nat.one_pos, units_zero, Nat.cast_zero, zero_mul]
    exact .refl (by norm_num) le_rfl
  · refine (nearest_word w).near_units_of_le (nearestMagnitude_word_lt hw) ?_
    exact le_trans two_pow_le_unitScale
      (le_mul_of_one_le_left (le_of_lt unitScale_pos) (Nat.one_le_cast.mpr hpos))

end Binary64

/-! ## Closeness -/

/-- Two magnitudes lie at most three places apart. -/
def Close (x y : ℕ) : Prop := x ≤ y + 3 ∧ y ≤ x + 3

theorem Close.refl (x : ℕ) : Close x x := ⟨Nat.le_add_right _ _, Nat.le_add_right _ _⟩

/-- **Three small roundings do not lead further than three places.** -/
theorem close_of_near {x y : ℕ} {q q' c δ : ℚ} (hx : Nearest x q) (hy : Nearest y q')
    (h : Near c δ q q') (hq : 0 ≤ q) (hq' : 0 ≤ q') (hc : 1 - 11 / (5 * 2 ^ 53) ≤ c) (hδ : 0 ≤ δ)
    (hδ₁ : δ ≤ 1 / 10) : Close x y := by
  have hgrow : 1 ≤ c * (1 + 23 / (10 * 2 ^ 53)) := calc
    (1 : ℚ) ≤ (1 - 11 / (5 * 2 ^ 53)) * (1 + 23 / (10 * 2 ^ 53)) := by norm_num
    _ ≤ c * (1 + 23 / (10 * 2 ^ 53)) := mul_le_mul_of_nonneg_right hc (by norm_num)
  have hplaces : 23 / (10 * 2 ^ 53) * 2 ^ 53 + (1 + 23 / (10 * 2 ^ 53)) * δ < (3 : ℕ) := by
    norm_num
    linarith
  exact ⟨hx.le_add_of_near hy h hq (by norm_num) hδ hgrow hplaces,
    hy.le_add_of_near hx h.symm hq' (by norm_num) hδ hgrow hplaces⟩

/-- Few units are not moved by small factors. -/
theorem Binary64.Near.of_le {c δ a b : ℚ} (h : Near c δ a b) (ha : 0 ≤ a) (hb : 0 ≤ b)
    (hb' : b ≤ 2 ^ 40) (hc : 1 - 4 / 2 ^ 53 ≤ c) (hδ : δ ≤ 1 / 20) : Near 1 (1 / 10) a b := by
  have hca := (mul_le_mul_of_nonneg_right hc ha).trans h.1
  have hcb := (mul_le_mul_of_nonneg_right hc hb).trans h.2
  constructor <;> linarith

namespace Numeral

/-- A division by a power of ten hands nearness on. -/
theorem near_div_tenPower {k : ℕ} (hk : k < 309) {a b c c' δ : ℚ} (h : Near c δ a b)
    (hpower : Near c' 0 (units (tenPower k)) (10 ^ k * unitScale)) (ha : 0 ≤ a)
    (hc : 0 ≤ c ∧ c ≤ 1) (hc' : 0 ≤ c' ∧ c' ≤ 1) (hδ : 0 ≤ δ) :
    Near (c' * c) (δ * (10 ^ k)⁻¹) (a * unitScale / units (tenPower k)) (b * (10 ^ k)⁻¹) := by
  have hone := unitScale_pos
  have hunits : (0 : ℚ) < units (tenPower k) := by exact_mod_cast units_tenPower_pos hk
  have hpow : (0 : ℚ) < 10 ^ k := by positivity
  have hdiv := (hpower.inv hunits (mul_pos hpow hone)).mul_right (mul_nonneg ha hone.le)
  have hleft : (units (tenPower k) : ℚ)⁻¹ * (a * unitScale) =
      a * unitScale / units (tenPower k) := by
    rw [div_eq_mul_inv, mul_comm]
  have hright : (10 ^ k * unitScale : ℚ)⁻¹ * (a * unitScale) = a * (10 ^ k)⁻¹ := by
    field_simp
  rw [hleft, hright, zero_mul] at hdiv
  have := hdiv.trans (h.mul_right (inv_nonneg.mpr hpow.le)) hc' hc le_rfl
    (mul_nonneg hδ (inv_nonneg.mpr hpow.le))
  rwa [zero_add] at this

section Scaling

variable {m w y : ℕ} {e : ℤ} {v : ℚ}

/-- A factor that comes from one rounding or from digits that are left out. -/
theorem factor_bounds (k : ℕ) : (0 : ℚ) ≤ 1 - 1 / 2 ^ k ∧ (1 : ℚ) - 1 / 2 ^ k ≤ 1 := by
  have hone : (1 : ℚ) ≤ 2 ^ k := one_le_pow₀ (by norm_num)
  have hpos : (0 : ℚ) ≤ 1 / 2 ^ k := by positivity
  have hle : (1 : ℚ) / 2 ^ k ≤ 1 := div_le_one_of_le₀ hone (by positivity)
  constructor <;> linarith

/-- One multiplication by a power of ten. -/
theorem close_mulMagnitude (hm : Near (1 - 1 / 2 ^ 53) 0 (units m) (w * unitScale))
    (he : 0 ≤ e) (he' : e ≤ 308) (hnear : Near (1 - 1 / 2 ^ 60) 0 (w * 10 ^ e) v) (hv : 0 ≤ v)
    (hy : Nearest y (v * unitScale)) : Close (mulMagnitude m (tenPower e.toNat)) y := by
  have hone := unitScale_pos
  have hproduct := (hm.mul (near_units_tenPower (by omega : e.toNat < 309)) (Nat.cast_nonneg _)
    (mul_unitScale_nonneg (Nat.cast_nonneg _)) (Nat.cast_nonneg _)
    (mul_unitScale_nonneg (by positivity)) (factor_bounds 53).1).mul_right
      (inv_nonneg.mpr hone.le)
  have hexact : w * unitScale * (10 ^ e.toNat * unitScale) * (unitScale : ℚ)⁻¹ =
      w * 10 ^ e * unitScale := by
    rw [ten_zpow_of_nonneg he]
    field_simp
  rw [zero_mul, hexact, ← div_eq_mul_inv] at hproduct
  have hchain := hproduct.trans (hnear.mul_right hone.le) (by norm_num) (factor_bounds 60) le_rfl
    (by rw [zero_mul])
  rw [zero_mul, add_zero] at hchain
  exact close_of_near (nearest_mulMagnitude _ _) hy hchain
    (div_nonneg (mul_nonneg (Nat.cast_nonneg _) (Nat.cast_nonneg _)) hone.le)
    (mul_unitScale_nonneg hv) (by norm_num) le_rfl (by norm_num)

/-- One division by a power of ten. -/
theorem close_divMagnitude (hm : Near (1 - 1 / 2 ^ 53) 0 (units m) (w * unitScale))
    (he : -308 ≤ e) (he' : e ≤ 0) (hnear : Near (1 - 1 / 2 ^ 60) 0 (w * 10 ^ e) v) (hv : 0 ≤ v)
    (hy : Nearest y (v * unitScale)) : Close (divMagnitude m (tenPower e.natAbs)) y := by
  have hk : e.natAbs < 309 := by omega
  have hone := unitScale_pos
  have hquotient := near_div_tenPower hk hm (near_units_tenPower hk) (Nat.cast_nonneg _)
    (factor_bounds 53) (factor_bounds 53) le_rfl
  have hexact : w * unitScale * ((10 : ℚ) ^ e.natAbs)⁻¹ = w * 10 ^ e * unitScale := by
    rw [ten_zpow_of_nonpos he', mul_right_comm]
  rw [zero_mul, hexact] at hquotient
  have hchain := hquotient.trans (hnear.mul_right hone.le) (by norm_num) (factor_bounds 60) le_rfl
    (by rw [zero_mul])
  rw [zero_mul, add_zero] at hchain
  exact close_of_near (nearest_divMagnitude m (units_tenPower_pos hk))
    hy hchain (div_nonneg (mul_unitScale_nonneg (Nat.cast_nonneg _)) (Nat.cast_nonneg _))
    (mul_unitScale_nonneg hv) (by norm_num) le_rfl (by norm_num)

/-- The first of two divisions by a power of ten, rounded. -/
theorem near_units_divMagnitude_last (hm : Near (1 - 1 / 2 ^ 53) 0 (units m) (w * unitScale))
    (hfinite : m < infiniteMagnitude) :
    Near ((1 - 1 / 2 ^ 53) * ((1 - 1 / (10 * 2 ^ 53)) * (1 - 1 / 2 ^ 53))) (1 / 2)
      (units (divMagnitude m (tenPower 308))) (w * unitScale * (10 ^ 308)⁻¹) := by
  have hk : 308 < 309 := by decide
  have hquotient := near_div_tenPower hk hm near_units_tenPower_last (Nat.cast_nonneg _)
    (factor_bounds 53) (by norm_num) le_rfl
  have hround := (nearest_divMagnitude m
    (units_tenPower_pos hk)).near_units
      ((divMagnitude_le m (unitsPerOne_le_tenPower hk)).trans_lt hfinite)
      (div_nonneg (mul_unitScale_nonneg (Nat.cast_nonneg _)) (Nat.cast_nonneg _))
  rw [zero_mul] at hquotient
  have hchain := hround.trans hquotient (factor_bounds 53) (by norm_num) (by norm_num) le_rfl
  rwa [add_zero] at hchain

/-- A word over the last finite power of ten is small against that power. -/
theorem word_div_le (hw : w < 2 ^ 64) : (w * unitScale * (10 ^ 308)⁻¹ : ℚ) ≤ 2 ^ 115 := by
  have hword : (w : ℚ) ≤ 2 ^ 64 := by exact_mod_cast hw.le
  rw [mul_inv_le_iff₀ (by positivity)]
  calc w * unitScale ≤ 2 ^ 64 * unitScale :=
        mul_le_mul_of_nonneg_right hword (le_of_lt unitScale_pos)
    _ = 2 ^ 115 * 2 ^ 1023 := by rw [unitScale_eq_pow, ← pow_add, ← pow_add]
    _ ≤ 2 ^ 115 * 10 ^ 308 := mul_le_mul_of_nonneg_left two_pow_le_ten_pow (by positivity)

/-- Two divisions by powers of ten.  Only the first can lose more than a small factor, and half a
unit of that is left behind the second. -/
theorem close_divMagnitude_divMagnitude
    (hm : Near (1 - 1 / 2 ^ 53) 0 (units m) (w * unitScale)) (hfinite : m < infiniteMagnitude)
    (hw : w < 2 ^ 64) (he : -616 ≤ e) (he' : e < -308)
    (hnear : Near (1 - 1 / 2 ^ 60) 0 (w * 10 ^ e) v) (hv : 0 ≤ v)
    (hy : Nearest y (v * unitScale)) :
    Close (divMagnitude (divMagnitude m (tenPower 308)) (tenPower (e + 308).natAbs)) y := by
  obtain ⟨k, hk⟩ : ∃ k, k = (e + 308).natAbs := ⟨_, rfl⟩
  have hk₀ : 0 < k := by omega
  have hk₁ : k < 309 := by omega
  have hone := unitScale_pos
  have hexact : w * unitScale * (10 ^ 308)⁻¹ * ((10 : ℚ) ^ k)⁻¹ = w * 10 ^ e * unitScale := by
    have hexp : e.natAbs = 308 + k := by omega
    rw [ten_zpow_of_nonpos (by omega), hexp, pow_add, mul_inv, mul_assoc (w * unitScale : ℚ),
      mul_right_comm]
  have hhalf : (0 : ℚ) ≤ 1 / 2 * (10 ^ k)⁻¹ := by positivity
  have hsmall : (1 / 2 * (10 ^ k)⁻¹ : ℚ) ≤ 1 / 20 := by
    have hten : (10 : ℚ) ≤ 10 ^ k := le_self_pow₀ (by norm_num) hk₀.ne'
    have := inv_anti₀ (by norm_num) hten
    linarith
  -- the factor of the second power of ten is left open, as it is one for the first few
  have hchain : ∀ c, 0 ≤ c ∧ c ≤ 1 →
      Near c 0 (units (tenPower k)) (10 ^ k * unitScale) →
      Near (c * ((1 - 1 / 2 ^ 53) * ((1 - 1 / (10 * 2 ^ 53)) * (1 - 1 / 2 ^ 53))) *
          (1 - 1 / 2 ^ 60)) (1 / 2 * (10 ^ k)⁻¹)
        (units (divMagnitude m (tenPower 308)) * unitScale / units (tenPower k))
        (v * unitScale) := by
    intro c hc hpower
    have hquotient := near_div_tenPower hk₁ (near_units_divMagnitude_last hm hfinite) hpower
      (Nat.cast_nonneg _) (by norm_num) hc (by norm_num)
    rw [hexact] at hquotient
    have hfactor : 0 ≤ c * ((1 - 1 / 2 ^ 53) * ((1 - 1 / (10 * 2 ^ 53)) * (1 - 1 / 2 ^ 53))) ∧
        c * ((1 - 1 / 2 ^ 53) * ((1 - 1 / (10 * 2 ^ 53)) * (1 - 1 / 2 ^ 53))) ≤ 1 :=
      ⟨mul_nonneg hc.1 (by norm_num), mul_le_one₀ hc.2 (by norm_num) (by norm_num)⟩
    have h := hquotient.trans (hnear.mul_right hone.le) hfactor (factor_bounds 60) hhalf
      (by rw [zero_mul])
    rwa [zero_mul, add_zero] at h
  have hx := nearest_divMagnitude (divMagnitude m (tenPower 308))
    (units_tenPower_pos hk₁)
  have hq : (0 : ℚ) ≤ units (divMagnitude m (tenPower 308)) * unitScale / units (tenPower k) :=
    div_nonneg (mul_unitScale_nonneg (Nat.cast_nonneg _)) (Nat.cast_nonneg _)
  have hv₀ := mul_unitScale_nonneg hv
  rw [← hk]
  rcases Nat.lt_or_ge k 23 with hlow | hhigh
  · have hpower : Near 1 0 (units (tenPower k)) (10 ^ k * unitScale) := by
      rw [units_tenPower_of_le k hlow, cast_mul_unitsPerOne, Nat.cast_pow, Nat.cast_ofNat]
      exact .refl le_rfl (mul_unitScale_nonneg (by positivity))
    exact close_of_near hx hy (hchain 1 (by norm_num) hpower) hq hv₀ (by norm_num) hhalf
      (hsmall.trans (by norm_num))
  · -- so few units are left that no small factor moves them
    have hunits : v * unitScale ≤ 2 ^ 40 := by
      have hpow : ((10 : ℚ) ^ k)⁻¹ ≤ (10 ^ 23)⁻¹ :=
        inv_anti₀ (by norm_num) (pow_le_pow_right₀ (by norm_num) hhigh)
      have hword := mul_le_mul (word_div_le hw) hpow (by positivity) (by norm_num)
      rw [hexact] at hword
      have := (hnear.mul_right hone.le).2
      rw [zero_mul, add_zero] at this
      linarith
    have hnear := (hchain _ (factor_bounds 53) (near_units_tenPower hk₁)).of_le hq hv₀ hunits
      (by norm_num) hsmall
    exact close_of_near hx hy hnear hq hv₀ (by norm_num) (by norm_num) le_rfl

/-- Beyond the last finite power of ten every number but zero is infinite. -/
theorem eq_infinite_of_lt (hw : 0 < w) (he : 308 < e)
    (hnear : Near (1 - 1 / 2 ^ 60) 0 (w * 10 ^ e) v) (hy : Nearest y (v * unitScale)) :
    y = infiniteMagnitude := by
  have hone := unitScale_pos
  rw [nearest_iff_eq_infinite] at hy
  · exact hy
  have hpow : (10 : ℚ) ^ 309 ≤ 10 ^ e := by
    rw [← zpow_natCast]
    exact zpow_le_zpow_right₀ (by norm_num) (by push_cast; omega)
  have hword : (10 : ℚ) ^ e ≤ w * 10 ^ e :=
    le_mul_of_one_le_left (by positivity) (by exact_mod_cast hw)
  have hle := le_trans two_mul_units_infinite_le
    (mul_le_mul_of_nonneg_right (hpow.trans hword) hone.le)
  have hscaled := (hnear.mul_right hone.le).1
  rw [zero_mul, add_zero] at hscaled
  linarith [Nat.cast_nonneg (α := ℚ) (units infiniteMagnitude)]

/-- Far below a unit every number is zero, by two divisions and as it is. -/
theorem eq_zero_of_lt (hm : Near (1 - 1 / 2 ^ 53) 0 (units m) (w * unitScale))
    (hfinite : m < infiniteMagnitude) (hw : w < 2 ^ 64) (he : e < -616)
    (hnear : Near (1 - 1 / 2 ^ 60) 0 (w * 10 ^ e) v) (hv : 0 ≤ v)
    (hy : Nearest y (v * unitScale)) :
    divMagnitude (divMagnitude m (tenPower 308)) (tenPower 308) = 0 ∧ y = 0 := by
  have hone := unitScale_pos
  have hlast : 308 < 309 := by decide
  have hword := word_div_le hw
  have hpos : (0 : ℚ) ≤ (10 ^ 308)⁻¹ := by positivity
  have htiny : ((10 ^ 308)⁻¹ : ℚ) ≤ (10 ^ 40)⁻¹ :=
    inv_anti₀ (by norm_num) (pow_le_pow_right₀ (by norm_num) (by norm_num))
  constructor
  · have hx := nearest_divMagnitude (divMagnitude m (tenPower 308))
      (units_tenPower_pos hlast)
    rw [nearest_iff_eq_zero (div_nonneg (mul_unitScale_nonneg (Nat.cast_nonneg _))
      (Nat.cast_nonneg _))] at hx
    · exact hx
    have hfirst := (near_units_divMagnitude_last hm hfinite).1.trans (add_le_add_left hword _)
    have hunits : (units (divMagnitude m (tenPower 308)) : ℚ) ≤ 2 ^ 117 := by linarith
    have hsecond := (near_div_tenPower hlast (.refl le_rfl (Nat.cast_nonneg
      (units (divMagnitude m (tenPower 308))))) near_units_tenPower_last (Nat.cast_nonneg _)
        (by norm_num) (by norm_num) le_rfl).1
    have hsmall := mul_le_mul hunits htiny hpos (by norm_num)
    rw [zero_mul, add_zero] at hsecond
    linarith only [hsecond.trans hsmall]
  · rw [nearest_iff_eq_zero (mul_unitScale_nonneg hv)] at hy
    · exact hy
    have hpow : (10 : ℚ) ^ e ≤ (10 ^ 308)⁻¹ * (10 ^ 308)⁻¹ := by
      rw [ten_zpow_of_nonpos (by omega), ← mul_inv, ← pow_add]
      exact inv_anti₀ (by positivity) (pow_le_pow_right₀ (by norm_num) (by omega))
    have hscaled := (hnear.mul_right hone.le).2
    have hsmall := mul_le_mul hword htiny hpos (by norm_num)
    have hexact : w * 10 ^ e * unitScale ≤
        w * unitScale * (10 ^ 308)⁻¹ * (10 ^ 308 : ℚ)⁻¹ := by
      rw [mul_right_comm, mul_assoc (w * unitScale : ℚ)]
      exact mul_le_mul_of_nonneg_left hpow (mul_unitScale_nonneg (Nat.cast_nonneg _))
    rw [zero_mul, add_zero] at hscaled
    linarith only [hscaled.trans (hexact.trans hsmall)]

end Scaling

end Numeral

end Rulebook
