import Rulebook.Proofs.Rounding

/-! # Rounding to the nearest number, the even one of two

Distances in place and distances in value are proportional on the stretch of magnitudes that share
the exponent of a ratio (`exists_stretch`), and the ends of the stretch lie on the two sides of the
ratio.  So the whole number nearest to the place of a ratio is also the magnitude nearest to it in
value, and the even one of two that are equally near (`nearestEven_of_place`).  At most one
magnitude is (`NearestEven.unique`).

Exponents have no upper limit in this.  Which ratios are rounded to a finite number is told by the
point half way between the largest finite number and the next one (`NearestEven.lt_infinite_iff`).
-/
namespace Rulebook.Binary64

/-! ## The order of the values -/

/-- Larger magnitudes have larger values. -/
theorem units_strictMono : StrictMono units := by
  intro a b hab
  by_contra hle
  have hcast : (units b : ℚ) ≤ units a := Nat.cast_le.mpr (not_lt.mp hle)
  have hplace := place_mono (Nat.cast_nonneg _) hcast
  rw [place_units, place_units] at hplace
  have hba : b ≤ a := by exact_mod_cast hplace
  omega

theorem cast_units_lt {a b : ℕ} (h : a < b) : (units a : ℚ) < units b :=
  Nat.cast_lt.mpr (units_strictMono h)

/-- Along the line on which `d` low digits are dropped, the values grow by one power of two.  The
last magnitude of the line is the first of the next one. -/
theorem units_line_le {d f : ℕ} (hlow : 2 ^ 52 ≤ f ∨ d = 0) (hhigh : f ≤ 2 ^ 53) :
    units (d * 2 ^ 52 + f) = f * 2 ^ d := by
  rcases Nat.lt_or_ge f (2 ^ 52) with hf | hf
  · obtain rfl : d = 0 := by omega
    have hbinade : perBinade = 2 ^ 52 := rfl
    rw [units, hbinade, if_pos (by omega)]
    simp
  rcases Nat.lt_or_ge f (2 ^ 53) with hf' | hf'
  · exact units_line hf hf'
  · obtain rfl : f = 2 ^ 53 := by omega
    have hnext : d * 2 ^ 52 + 2 ^ 53 = (d + 1) * 2 ^ 52 + 2 ^ 52 := by omega
    rw [hnext, units_line le_rfl (by decide), pow_succ' 2 d, ← mul_assoc]
    norm_num

/-- **The stretch of a ratio**: magnitudes around its place, whose distance to it in value is in
proportion to the distance in place. -/
theorem exists_stretch {q : ℚ} (hq : 0 ≤ q) : ∃ first last : ℕ,
    (first : ℚ) ≤ place q ∧ place q ≤ last ∧ ∀ k, first ≤ k → k ≤ last →
      (units k : ℚ) - q = 2 ^ dropped q * (k - place q) := by
  obtain ⟨low, hlow, hlowq⟩ : ∃ low : ℕ, (2 ^ 52 ≤ low ∨ dropped q = 0) ∧
      low * 2 ^ dropped q ≤ q := by
    cases hd : dropped q with
    | zero => exact ⟨0, .inr rfl, by simpa using hq⟩
    | succ d =>
      have hle := two_pow_le_of_lt_dropped hq (d := d) (by omega)
      refine ⟨2 ^ 52, .inl le_rfl, le_trans (le_of_eq ?_) hle⟩
      rw [Nat.cast_pow, Nat.cast_ofNat, ← pow_add]
      congr 1
      omega
  have hpos : (0 : ℚ) < 2 ^ dropped q := by positivity
  have hline : place q = dropped q * 2 ^ 52 + q / 2 ^ dropped q := rfl
  have hhighq : q / 2 ^ dropped q < 2 ^ 53 := by
    rw [div_lt_iff₀ hpos, ← pow_add]
    exact lt_two_pow_dropped q
  have hlowq' : (low : ℚ) ≤ q / 2 ^ dropped q := (le_div_iff₀ hpos).mpr hlowq
  refine ⟨dropped q * 2 ^ 52 + low, dropped q * 2 ^ 52 + 2 ^ 53, ?_, ?_, ?_⟩
  · rw [hline]
    push_cast
    linarith
  · rw [hline]
    push_cast
    linarith
  · intro k hfirst hlast
    obtain ⟨f, rfl⟩ := Nat.exists_eq_add_of_le (le_trans (Nat.le_add_right _ low) hfirst)
    rw [units_line_le (by omega) (by omega), hline]
    push_cast
    field_simp
    ring

/-! ## The nearest magnitude -/

/-- No magnitude is nearer to the ratio in units, and the magnitude is even if another one is as
near. -/
def NearestEven (m : ℕ) (q : ℚ) : Prop :=
  ∀ k : ℕ, |(units m : ℚ) - q| < |(units k : ℚ) - q| ∨
    |(units m : ℚ) - q| = |(units k : ℚ) - q| ∧ (k = m ∨ Even m)

/-- A whole number within a half of a ratio, and even if it is just a half away, is the nearest. -/
theorem abs_sub_lt_or_eq {r : ℕ} {p : ℚ} (hr : |(r : ℚ) - p| ≤ 1 / 2)
    (htie : |(r : ℚ) - p| = 1 / 2 → Even r) (k : ℕ) :
    |(r : ℚ) - p| < |(k : ℚ) - p| ∨ |(r : ℚ) - p| = |(k : ℚ) - p| ∧ (k = r ∨ Even r) := by
  by_cases hk : k = r
  · exact .inr ⟨by rw [hk], .inl hk⟩
  have hstep : (1 : ℚ) ≤ |(k : ℚ) - r| := by
    have hne : (k : ℤ) - r ≠ 0 := by omega
    exact_mod_cast Int.one_le_abs hne
  have hsum : |(k : ℚ) - r| ≤ |(k : ℚ) - p| + |(r : ℚ) - p| := by
    rw [abs_sub_comm (r : ℚ) p]
    exact abs_sub_le _ _ _
  rcases lt_or_eq_of_le hr with hlt | heq
  · left
    linarith
  · rcases lt_or_eq_of_le (show |(r : ℚ) - p| ≤ |(k : ℚ) - p| by linarith) with hlt | heq'
    · exact .inl hlt
    · exact .inr ⟨heq', .inr (htie heq)⟩

/-- **What is nearest among the magnitudes between one below the ratio and one above it is nearest
among all**: beyond these two the magnitudes are farther away. -/
theorem nearestEven_of_between {r first last : ℕ} {q : ℚ} (hle : first ≤ last)
    (hfirst : (units first : ℚ) ≤ q) (hlast : q ≤ units last)
    (hbetween : ∀ k, first ≤ k → k ≤ last → |(units r : ℚ) - q| < |(units k : ℚ) - q| ∨
      |(units r : ℚ) - q| = |(units k : ℚ) - q| ∧ (k = r ∨ Even r)) : NearestEven r q := by
  have hends : ∀ k, first ≤ k → k ≤ last → |(units r : ℚ) - q| ≤ |(units k : ℚ) - q| := by
    intro k hk hk'
    rcases hbetween k hk hk' with hlt | heq
    · exact hlt.le
    · exact heq.1.le
  intro k
  by_cases hk : first ≤ k
  · by_cases hk' : k ≤ last
    · exact hbetween k hk hk'
    · have hlt := cast_units_lt (not_le.mp hk')
      left
      calc |(units r : ℚ) - q| ≤ |(units last : ℚ) - q| := hends last hle le_rfl
        _ = units last - q := abs_of_nonneg (by linarith)
        _ < units k - q := by linarith
        _ ≤ |(units k : ℚ) - q| := le_abs_self _
  · have hlt := cast_units_lt (not_le.mp hk)
    left
    calc |(units r : ℚ) - q| ≤ |(units first : ℚ) - q| := hends first le_rfl hle
      _ = q - units first := by rw [abs_sub_comm, abs_of_nonneg (by linarith)]
      _ < q - units k := by linarith
      _ ≤ |(units k : ℚ) - q| := by rw [abs_sub_comm]; exact le_abs_self _

/-- **The whole number nearest to the place of a ratio is the magnitude nearest to the ratio.** -/
theorem nearestEven_of_place {r : ℕ} {q : ℚ} (hq : 0 ≤ q) (hr : |(r : ℚ) - place q| ≤ 1 / 2)
    (htie : |(r : ℚ) - place q| = 1 / 2 → Even r) : NearestEven r q := by
  obtain ⟨first, last, hfirst, hlast, hline⟩ := exists_stretch hq
  have hpos : (0 : ℚ) < 2 ^ dropped q := by positivity
  have habs : ∀ k, first ≤ k → k ≤ last →
      |(units k : ℚ) - q| = 2 ^ dropped q * |(k : ℚ) - place q| := by
    intro k hk hk'
    rw [hline k hk hk', abs_mul, abs_of_pos hpos]
  obtain ⟨hrlow, hrhigh⟩ := abs_le.mp hr
  have hfirstr : first ≤ r := by
    have hlt : (first : ℚ) < r + 1 := by linarith
    exact Nat.lt_succ_iff.mp (by exact_mod_cast hlt)
  have hrlast : r ≤ last := by
    have hlt : (r : ℚ) < last + 1 := by linarith
    exact Nat.lt_succ_iff.mp (by exact_mod_cast hlt)
  have hle := hfirstr.trans hrlast
  refine nearestEven_of_between hle ?_ ?_ ?_
  · have h := hline first le_rfl hle
    linarith [mul_nonpos_of_nonneg_of_nonpos hpos.le (sub_nonpos.mpr hfirst)]
  · have h := hline last hle le_rfl
    linarith [mul_nonneg hpos.le (sub_nonneg.mpr hlast)]
  · -- within the stretch the distances in value are those in place
    intro k hk hk'
    rw [habs r hfirstr hrlast, habs k hk hk', mul_lt_mul_iff_right₀ hpos, mul_right_inj' hpos.ne']
    exact abs_sub_lt_or_eq hr htie k

/-- Every ratio has a nearest magnitude. -/
theorem exists_nearestEven {q : ℚ} (hq : 0 ≤ q) : ∃ r, NearestEven r q := by
  have hratio : ((place q).num.natAbs : ℚ) / (place q).den = place q := by
    rw [Nat.cast_natAbs, abs_of_nonneg (Rat.num_nonneg.mpr (place_nonneg hq)), Rat.num_div_den]
  have hnear := abs_roundHalfEven_sub_le (place q).num.natAbs (place q).den_pos
  have htie := @even_roundHalfEven (place q).num.natAbs _ (place q).den_pos
  rw [hratio] at hnear htie
  exact ⟨_, nearestEven_of_place hq hnear htie⟩

/-- Below half a unit zero is the nearest. -/
theorem nearestEven_zero {q : ℚ} (hq : 0 ≤ q) (h : q < 1 / 2) : NearestEven 0 q := by
  have hlt : |((0 : ℕ) : ℚ) - place q| < 1 / 2 := by
    rw [Nat.cast_zero, zero_sub, abs_neg, abs_of_nonneg (place_nonneg hq)]
    exact (place_le_self hq).trans_lt h
  exact nearestEven_of_place hq hlt.le fun htie => absurd htie hlt.ne

namespace NearestEven

variable {m m' : ℕ} {q : ℚ}

theorem le (h : NearestEven m q) (k : ℕ) : |(units m : ℚ) - q| ≤ |(units k : ℚ) - q| := by
  rcases h k with hlt | heq
  · exact hlt.le
  · exact heq.1.le

/-- A magnitude is even where another one is as near. -/
theorem even_of_tie (h : NearestEven m q) {k : ℕ} (hne : k ≠ m)
    (htie : |(units m : ℚ) - q| = |(units k : ℚ) - q|) : Even m := by
  rcases h k with hlt | ⟨-, hm | heven⟩
  · exact absurd htie hlt.ne
  · exact absurd hm hne
  · exact heven

theorem not_below (h : NearestEven m q) (h' : NearestEven m' q) : ¬ m < m' := by
  intro hlt
  have heq : |(units m : ℚ) - q| = |(units m' : ℚ) - q| := le_antisymm (h.le m') (h'.le m)
  -- both are even, so that there is a magnitude between them, which is nearer
  have hbetween : m + 1 < m' := by
    have heven := h.even_of_tie hlt.ne' heq
    have heven' := h'.even_of_tie hlt.ne heq.symm
    rw [Nat.even_iff] at heven heven'
    omega
  have hlow := cast_units_lt (Nat.lt_succ_self m)
  have hhigh := cast_units_lt hbetween
  have hsides : (units m : ℚ) - q = -(units m' - q) := by
    rcases abs_eq_abs.mp heq with hsame | hopposite
    · linarith
    · exact hopposite
  have hnearer : |(units (m + 1) : ℚ) - q| < |(units m' : ℚ) - q| := by
    rw [abs_of_nonneg (by linarith : (0 : ℚ) ≤ units m' - q), abs_lt]
    constructor <;> linarith
  linarith [h'.le (m + 1)]

/-- **At most one magnitude is nearest.** -/
theorem unique (h : NearestEven m q) (h' : NearestEven m' q) : m = m' := by
  have hlow := h.not_below h'
  have hhigh := h'.not_below h
  omega

end NearestEven

/-! ## The largest finite number -/

theorem units_last : (units (infiniteMagnitude - 1) : ℚ) = (2 ^ 53 - 1) * 2 ^ 2045 := by
  have hline : infiniteMagnitude - 1 = 2045 * 2 ^ 52 + (2 ^ 53 - 1) := by decide
  have hcast : ((2 ^ 53 - 1 : ℕ) : ℚ) = 2 ^ 53 - 1 := by norm_num
  rw [hline, units_line_le (.inl (by decide)) (by decide), Nat.cast_mul, Nat.cast_pow,
    Nat.cast_ofNat, hcast]

theorem units_infinite : (units infiniteMagnitude : ℚ) = 2 ^ 53 * 2 ^ 2045 := by
  have hline : infiniteMagnitude = 2045 * 2 ^ 52 + 2 ^ 53 := by decide
  rw [hline, units_line_le (.inl (by decide)) le_rfl, Nat.cast_mul, Nat.cast_pow, Nat.cast_pow,
    Nat.cast_ofNat]

/-- **A ratio is rounded to a finite number** exactly if it is below the point half way between the
largest finite number and the next one.  The point itself is not, as the next one is even. -/
theorem NearestEven.lt_infinite_iff {m : ℕ} {q : ℚ} (h : NearestEven m q) :
    m < infiniteMagnitude ↔
      2 * q < units (infiniteMagnitude - 1) + units infiniteMagnitude := by
  have hstep := cast_units_lt (by decide : infiniteMagnitude - 1 < infiniteMagnitude)
  constructor
  · intro hm
    by_contra hge
    have hbeyond : |(units infiniteMagnitude : ℚ) - q| ≤ q - units (infiniteMagnitude - 1) := by
      rw [abs_le]
      constructor <;> linarith
    have hlast : q - units (infiniteMagnitude - 1) ≤ |(units m : ℚ) - q| := by
      have hmono : (units m : ℚ) ≤ units (infiniteMagnitude - 1) :=
        Nat.cast_le.mpr (units_strictMono.monotone (by omega))
      rw [abs_sub_comm]
      exact le_trans (by linarith) (le_abs_self _)
    rcases h infiniteMagnitude with hlt | ⟨heq, hsame | heven⟩
    · linarith
    · omega
    · -- the last finite magnitude is odd, so `m` is a lower one, which is farther away
      have hne : m ≠ infiniteMagnitude - 1 := by
        rintro rfl
        exact absurd heven (by decide)
      have hlt := cast_units_lt (show m < infiniteMagnitude - 1 by omega)
      have hfar : q - units m ≤ |(units m : ℚ) - q| := by
        rw [abs_sub_comm]
        exact le_abs_self _
      linarith
  · intro hq
    by_contra hge
    have hmono : (units infiniteMagnitude : ℚ) ≤ units m :=
      Nat.cast_le.mpr (units_strictMono.monotone (not_lt.mp hge))
    have hnear : |(units (infiniteMagnitude - 1) : ℚ) - q| < units infiniteMagnitude - q := by
      rw [abs_lt]
      constructor <;> linarith
    linarith [h.le (infiniteMagnitude - 1), le_abs_self ((units m : ℚ) - q)]

/-- The magnitude that a ratio in units is rounded to: the nearest one, or infinity in place of a
larger one. -/
def Rounded (m : ℕ) (q : ℚ) : Prop := ∃ r, NearestEven r q ∧ m = min infiniteMagnitude r

/-- **The rounding is to the nearest magnitude, the even one of two.** -/
theorem rounded_nearestMagnitude (num : ℕ) {den : ℕ} (hden : 0 < den) :
    Rounded (nearestMagnitude num den) (num * unitScale / den) := by
  obtain ⟨r, hr, htie, hm⟩ := exists_abs_sub_place_le num hden
  have hscaled : 0 ≤ num * unitScale / (den : ℚ) :=
    div_nonneg (mul_unitScale_nonneg (Nat.cast_nonneg num)) (Nat.cast_nonneg den)
  exact ⟨r, nearestEven_of_place hscaled hr htie, hm⟩

end Rulebook.Binary64
