import Mathlib.Algebra.Order.Floor.Semifield
import Mathlib.Data.Rat.Floor
import Mathlib.Tactic.FieldSimp
import Mathlib.Tactic.Linarith
import Mathlib.Tactic.Positivity
import Mathlib.Tactic.Ring
import Rulebook.Number.Binary64

/-! # Rounding to the nearest magnitude

Between two powers of two the magnitudes run along a line: of a ratio in units, `d` low binary
digits are dropped, and what is left counts the magnitudes from the first of the binade on.  The
line of every other `d` lies above it (`place_le_line`), so the *place* of a ratio among the
magnitudes is the least of all its lines.  From this alone it follows that places keep the order of
the ratios, that they move no faster than the ratios do, and that a ratio changed by a small factor
moves by at most so many places as the factor takes off a full mantissa (`place_le_add`).

A magnitude is *nearest* to a ratio if it is a whole number within a half of its place, or infinity
in place of a larger one (`Nearest`).  The rounding is such a magnitude
(`nearest_nearestMagnitude`), every finite magnitude stands in its own place (`place_units`), and
ratios in nearby places are near to each other (`le_add_of_place_le`).
-/
namespace Rulebook.Binary64

/-! ## Places -/

/-- The line along which the magnitudes run where `d` low binary digits are dropped. -/
def line (q : ℚ) (d : ℕ) : ℚ := d * 2 ^ 52 + q / 2 ^ d

/-- How many low binary digits are dropped of a ratio in units. -/
def dropped (q : ℚ) : ℕ := ⌊q⌋₊.log2 - 52

/-- The place of a ratio in units among the magnitudes. -/
def place (q : ℚ) : ℚ := line q (dropped q)

theorem lt_two_pow_dropped (q : ℚ) : q < 2 ^ (53 + dropped q) := by
  have hlog : ⌊q⌋₊ < 2 ^ (53 + dropped q) :=
    Nat.lt_log2_self.trans_le (Nat.pow_le_pow_right (by decide) (by unfold dropped; omega))
  exact_mod_cast Nat.lt_of_floor_lt hlog

theorem two_pow_le_of_lt_dropped {q : ℚ} {d : ℕ} (hq : 0 ≤ q) (hd : d < dropped q) :
    2 ^ (53 + d) ≤ q := by
  have hne : ⌊q⌋₊ ≠ 0 := by
    intro h
    simp [dropped, h] at hd
  have hlog : 2 ^ (53 + d) ≤ ⌊q⌋₊ :=
    (Nat.pow_le_pow_right (by decide) (by unfold dropped at hd; omega)).trans
      (Nat.log2_self_le hne)
  exact_mod_cast (Nat.le_floor_iff hq).mp hlog

theorem line_succ (q : ℚ) (d : ℕ) : line q (d + 1) = line q d + (2 ^ 52 - q / 2 ^ (d + 1)) := by
  unfold line
  push_cast
  field_simp
  ring

/-- The lines rise behind the place of a ratio. -/
theorem line_le_line_succ {q : ℚ} {d : ℕ} (h : q ≤ 2 ^ (53 + d)) : line q d ≤ line q (d + 1) := by
  have hq : q / 2 ^ (d + 1) ≤ 2 ^ 52 := by
    rw [div_le_iff₀ (by positivity), ← pow_add]
    exact h.trans_eq (by congr 1; omega)
  rw [line_succ]
  linarith

/-- The lines fall in front of the place of a ratio. -/
theorem line_succ_le_line {q : ℚ} {d : ℕ} (h : 2 ^ (53 + d) ≤ q) : line q (d + 1) ≤ line q d := by
  have hq : 2 ^ 52 ≤ q / 2 ^ (d + 1) := by
    rw [le_div_iff₀ (by positivity), ← pow_add]
    exact (by congr 1; omega : (2 : ℚ) ^ (52 + (d + 1)) = 2 ^ (53 + d)).trans_le h
  rw [line_succ]
  linarith

/-- **The place of a ratio is the least of its lines.** -/
theorem place_le_line {q : ℚ} (hq : 0 ≤ q) (d : ℕ) : place q ≤ line q d := by
  rcases le_total (dropped q) d with hd | hd
  · induction d, hd using Nat.le_induction with
    | base => exact le_rfl
    | succ n hn ih =>
      have hle : q ≤ 2 ^ (53 + n) := (lt_two_pow_dropped q).le.trans
        (pow_le_pow_right₀ (by norm_num) (Nat.add_le_add_left hn 53))
      exact ih.trans (line_le_line_succ hle)
  · induction hd using Nat.decreasingInduction with
    | self => exact le_rfl
    | of_succ n hn ih => exact ih.trans (line_succ_le_line (two_pow_le_of_lt_dropped hq hn))

/-- A ratio moves by no more places than the line of another one does. -/
theorem place_le_add_div {q q' : ℚ} (hq' : 0 ≤ q') :
    place q' ≤ place q + (q' - q) / 2 ^ dropped q := by
  have hline : line q' (dropped q) = place q + (q' - q) / 2 ^ dropped q := by
    unfold place line
    ring
  exact hline ▸ place_le_line hq' (dropped q)

theorem place_mono {q q' : ℚ} (hq : 0 ≤ q) (h : q ≤ q') : place q ≤ place q' := by
  have hle : (q - q') / 2 ^ dropped q' ≤ 0 :=
    div_nonpos_of_nonpos_of_nonneg (by linarith) (by positivity)
  linarith [place_le_add_div (q := q') hq]

/-- **A ratio that grows by a small factor and a summand** moves by at most the part that the
factor adds to a full mantissa, and by the summand. -/
theorem place_le_add {q q' ε δ : ℚ} (hq' : 0 ≤ q') (hε : 0 ≤ ε) (hδ : 0 ≤ δ)
    (h : q' ≤ q * (1 + ε) + δ) : place q' ≤ place q + (ε * 2 ^ 53 + δ) := by
  have hpos : (0 : ℚ) < 2 ^ dropped q := by positivity
  have hone : (1 : ℚ) ≤ 2 ^ dropped q := one_le_pow₀ (by norm_num)
  have hfull : q ≤ 2 ^ 53 * 2 ^ dropped q := by
    rw [← pow_add]
    exact (lt_two_pow_dropped q).le
  have hmove : (q' - q) / 2 ^ dropped q ≤ ε * 2 ^ 53 + δ := by
    rw [div_le_iff₀ hpos]
    calc q' - q ≤ ε * q + δ := by linarith
      _ ≤ ε * (2 ^ 53 * 2 ^ dropped q) + δ * 2 ^ dropped q :=
        add_le_add (mul_le_mul_of_nonneg_left hfull hε) (le_mul_of_one_le_right hδ hone)
      _ = (ε * 2 ^ 53 + δ) * 2 ^ dropped q := by ring
  linarith [place_le_add_div (q := q) hq']

/-- **Ratios in nearby places are near to each other**, up to half a unit or half a last digit. -/
theorem le_add_of_place_le {a b : ℚ} (ha : 0 ≤ a) (hb : 0 ≤ b) (h : place a ≤ place b + 1 / 2) :
    a ≤ b + 1 / 2 ∨ a ≤ b + a / 2 ^ 53 := by
  have hpos : (0 : ℚ) < 2 ^ dropped a := by positivity
  have hline : a / 2 ^ dropped a ≤ b / 2 ^ dropped a + 1 / 2 := by
    have hb := h.trans (add_le_add_left (place_le_line hb (dropped a)) _)
    unfold place line at hb
    linarith
  have hle : a ≤ b + 2 ^ dropped a / 2 := by
    rw [div_add' _ _ _ hpos.ne', div_le_div_iff_of_pos_right hpos] at hline
    linarith
  cases hd : dropped a with
  | zero =>
    rw [hd, pow_zero] at hle
    exact .inl hle
  | succ d =>
    have hfull := two_pow_le_of_lt_dropped ha (d := d) (by omega)
    have hhalf : (2 : ℚ) ^ dropped a / 2 ≤ a / 2 ^ 53 := by
      rw [hd, pow_succ, mul_div_cancel_right₀ _ (by norm_num), le_div_iff₀ (by positivity),
        ← pow_add, Nat.add_comm]
      exact hfull
    exact .inr (hle.trans (add_le_add_right hhalf _))

/-! ## Magnitudes in their places -/

theorem cast_perBinade : (perBinade : ℚ) = 2 ^ 52 := by norm_num [perBinade]

theorem dropped_natCast (n : ℕ) : dropped n = n.log2 - 52 := by
  rw [dropped, Nat.floor_natCast]

theorem units_zero : units 0 = 0 := rfl

/-- A mantissa of 53 bits over a power of two is a magnitude. -/
theorem units_line {d f : ℕ} (hlow : 2 ^ 52 ≤ f) (hhigh : f < 2 ^ 53) :
    units (d * 2 ^ 52 + f) = f * 2 ^ d := by
  have hbinade : perBinade = 2 ^ 52 := rfl
  have hdiv : (d * 2 ^ 52 + f) / 2 ^ 52 = d + 1 := by omega
  have hmod : 2 ^ 52 + (d * 2 ^ 52 + f) % 2 ^ 52 = f := by omega
  rw [units, hbinade, if_neg (by omega), hmod, hdiv, Nat.add_sub_cancel, Nat.pow_eq]

/-- The first magnitude of a binade is a power of two. -/
theorem units_mul_perBinade (d : ℕ) : (units ((d + 1) * perBinade) : ℚ) = 2 ^ (52 + d) := by
  have hbinade : perBinade = 2 ^ 52 := rfl
  rw [hbinade, Nat.succ_mul, units_line le_rfl (by decide), ← pow_add, Nat.cast_pow,
    Nat.cast_ofNat]

theorem unitsPerOne_eq : unitsPerOne = 2 ^ 1074 := by
  unfold unitsPerOne
  -- the power is too large to be computed
  generalize 1074 = k
  rfl

theorem unitsPerOne_pos : 0 < unitsPerOne := by
  rw [unitsPerOne_eq]
  positivity

/-- How many units make one, as a ratio.  It is kept from being computed, since it is large. -/
@[irreducible] def unitScale : ℚ := unitsPerOne

theorem unitScale_eq : unitScale = unitsPerOne := by rw [unitScale]

theorem unitScale_eq_pow : unitScale = 2 ^ 1074 := by
  rw [unitScale_eq, unitsPerOne_eq, Nat.cast_pow, Nat.cast_ofNat]

theorem cast_mul_unitsPerOne (n : ℕ) : ((n * unitsPerOne : ℕ) : ℚ) = n * unitScale := by
  rw [unitScale_eq, Nat.cast_mul]

theorem unitScale_pos : 0 < unitScale := by
  rw [unitScale_eq]
  exact Nat.cast_pos.mpr unitsPerOne_pos

theorem mul_unitScale_nonneg {v : ℚ} (hv : 0 ≤ v) : 0 ≤ v * unitScale :=
  mul_nonneg hv (le_of_lt unitScale_pos)

/-- **A magnitude stands in its own place.** -/
theorem place_units (m : ℕ) : place (units m) = m := by
  have hbinade : perBinade = 2 ^ 52 := rfl
  rw [place, dropped_natCast, units]
  split
  · rename_i hm
    have hlog : m.log2 - 52 = 0 := by
      rcases Nat.eq_zero_or_pos m with rfl | hpos
      · rfl
      · have := (Nat.log2_lt hpos.ne').mpr (hm.trans (by decide : perBinade < 2 ^ 53))
        omega
    simp [line, hlog]
  · rename_i hm
    -- the fraction of `m` follows a leading one, and its exponent counts from one
    obtain ⟨e, he⟩ : ∃ e, m / perBinade = e + 1 :=
      Nat.exists_eq_succ_of_ne_zero (Nat.div_pos (not_lt.mp hm) (by decide)).ne'
    have hmod := Nat.mod_lt m (by decide : 0 < perBinade)
    have hm' : m = perBinade * (e + 1) + m % perBinade := by rw [← he, Nat.div_add_mod]
    have hlog : ((perBinade + m % perBinade) * 2 ^ e).log2 = 52 + e := by
      have hlow := Nat.mul_le_mul_right (2 ^ e) (Nat.le_add_right perBinade (m % perBinade))
      have hhigh := Nat.mul_lt_mul_of_pos_right (Nat.add_lt_add_left hmod perBinade)
        (Nat.two_pow_pos e)
      rw [Nat.log2_eq_iff (Nat.mul_pos (by omega) (Nat.two_pow_pos e)).ne', Nat.pow_succ,
        Nat.pow_add, ← hbinade]
      rw [Nat.add_mul perBinade perBinade] at hhigh
      omega
    rw [he, Nat.add_sub_cancel, Nat.pow_eq, hlog, Nat.add_sub_cancel_left]
    conv_rhs => rw [hm']
    push_cast [line, cast_perBinade]
    field_simp
    ring

theorem place_nonneg {q : ℚ} (hq : 0 ≤ q) : 0 ≤ place q := by
  have hzero := place_units 0
  rw [units_zero, Nat.cast_zero] at hzero
  exact hzero.symm.le.trans (place_mono le_rfl hq)

theorem place_le_self {q : ℚ} (hq : 0 ≤ q) : place q ≤ q := by
  simpa [line] using place_le_line hq 0

/-! ## Nearest magnitudes -/

theorem abs_roundHalfEven_sub_le (num : ℕ) {den : ℕ} (hden : 0 < den) :
    |(roundHalfEven num den : ℚ) - num / den| ≤ 1 / 2 := by
  have hdiv := Nat.div_add_mod num den
  have hmod := Nat.mod_lt num hden
  have hround : 2 * (den * roundHalfEven num den) ≤ 2 * num + den ∧
      2 * num ≤ 2 * (den * roundHalfEven num den) + den := by
    unfold roundHalfEven
    dsimp only
    split
    · omega
    · rw [Nat.mul_add]
      omega
  have hpos : (0 : ℚ) < den := by exact_mod_cast hden
  obtain ⟨hlow, hhigh⟩ := hround
  have hlow : (2 * (den * roundHalfEven num den) : ℚ) ≤ 2 * num + den := by exact_mod_cast hlow
  have hhigh : (2 * num : ℚ) ≤ 2 * (den * roundHalfEven num den) + den := by exact_mod_cast hhigh
  rw [sub_div' hpos.ne', abs_le, le_div_iff₀ hpos, div_le_iff₀ hpos]
  constructor <;> linarith

/-- A tie is broken to the even side. -/
theorem even_roundHalfEven {num den : ℕ} (hden : 0 < den)
    (h : |(roundHalfEven num den : ℚ) - num / den| = 1 / 2) : Even (roundHalfEven num den) := by
  have hdiv := Nat.div_add_mod num den
  have hmod := Nat.mod_lt num hden
  have hpos : (0 : ℚ) < den := by exact_mod_cast hden
  -- the rounded number is half a step above the ratio or half a step below it
  have htie : 2 * (den * roundHalfEven num den) = 2 * num + den ∨
      2 * (den * roundHalfEven num den) + den = 2 * num := by
    rcases (abs_eq (by norm_num)).mp h with h | h
    · rw [sub_div' hpos.ne', div_eq_iff hpos.ne'] at h
      left
      have : (2 * (den * roundHalfEven num den) : ℚ) = 2 * num + den := by linarith
      exact_mod_cast this
    · rw [sub_div' hpos.ne', div_eq_iff hpos.ne'] at h
      right
      have : (2 * (den * roundHalfEven num den) + den : ℚ) = 2 * num := by linarith
      exact_mod_cast this
  unfold roundHalfEven at htie ⊢
  dsimp only at htie ⊢
  generalize num / den = down, num % den = rest at hdiv hmod htie ⊢
  split
  · rename_i hdown
    rw [if_pos hdown] at htie
    rw [Nat.even_iff]
    omega
  · rename_i hup
    rw [if_neg hup, Nat.mul_add] at htie
    rw [Nat.even_iff]
    omega

/-- **The rounding gives the whole number nearest to the place of the ratio**, the even one of two,
or infinity where that number is larger. -/
theorem exists_abs_sub_place_le (num : ℕ) {den : ℕ} (hden : 0 < den) :
    ∃ r : ℕ, |(r : ℚ) - place (num * unitScale / den)| ≤ 1 / 2 ∧
      (|(r : ℚ) - place (num * unitScale / den)| = 1 / 2 → Even r) ∧
        nearestMagnitude num den = min infiniteMagnitude r := by
  rw [unitScale_eq]
  have hdropped : dropped (num * unitsPerOne / den) = (num * unitsPerOne / den).log2 - 52 := by
    rw [dropped, ← Nat.cast_mul, Nat.floor_div_eq_div]
  generalize hd : (num * unitsPerOne / den).log2 - 52 = d at hdropped
  have hpos : 0 < den * 2 ^ d := Nat.mul_pos hden (Nat.two_pow_pos d)
  -- the place counts from the first magnitude of the binade, as the rounding does
  have hplace : ((d * perBinade + roundHalfEven (num * unitsPerOne) (den * 2 ^ d) : ℕ) : ℚ) -
      place (num * unitsPerOne / den) =
        roundHalfEven (num * unitsPerOne) (den * 2 ^ d) -
          (num * unitsPerOne : ℕ) / (den * 2 ^ d : ℕ) := by
    rw [place, hdropped, line]
    push_cast [← div_div]
    rw [cast_perBinade]
    ring
  refine ⟨d * perBinade + roundHalfEven (num * unitsPerOne) (den * 2 ^ d), ?_, ?_, ?_⟩
  · rw [hplace]
    exact abs_roundHalfEven_sub_le _ hpos
  · intro htie
    rw [hplace] at htie
    have hbinade : Even (d * perBinade) := (by decide : Even perBinade).mul_left d
    exact hbinade.add (even_roundHalfEven hpos htie)
  · rw [nearestMagnitude, hd, Nat.pow_eq]

/-- The magnitude is a whole number within a half of the place of the ratio, or infinity where that
number is larger. -/
def Nearest (m : ℕ) (q : ℚ) : Prop :=
  ∃ r : ℕ, |(r : ℚ) - place q| ≤ 1 / 2 ∧ m = min infiniteMagnitude r

/-- The rounding gives a nearest magnitude. -/
theorem nearest_nearestMagnitude (num : ℕ) {den : ℕ} (hden : 0 < den) :
    Nearest (nearestMagnitude num den) (num * unitScale / den) := by
  obtain ⟨r, hr, -, hm⟩ := exists_abs_sub_place_le num hden
  exact ⟨r, hr, hm⟩

namespace Nearest

variable {m k : ℕ} {q : ℚ}

/-- A ratio that is no larger than a magnitude is not rounded above it. -/
theorem le_of_le_units (h : Nearest m q) (hq : 0 ≤ q) (hk : q ≤ units k) : m ≤ k := by
  obtain ⟨r, hr, rfl⟩ := h
  have hplace := place_mono hq hk
  rw [place_units] at hplace
  have hlt : (r : ℚ) < k + 1 := by linarith [(abs_le.mp hr).2]
  exact (min_le_right _ _).trans (Nat.lt_succ_iff.mp (by exact_mod_cast hlt))

/-- A magnitude is rounded to itself. -/
theorem eq_of_units (h : Nearest m (units k)) (hk : k ≤ infiniteMagnitude) : m = k := by
  obtain ⟨r, hr, rfl⟩ := h
  rw [place_units, abs_le] at hr
  have hlow : (k : ℚ) < r + 1 := by linarith [hr.1]
  have hhigh : (r : ℚ) < k + 1 := by linarith [hr.2]
  have hlow : k < r + 1 := by exact_mod_cast hlow
  have hhigh : r < k + 1 := by exact_mod_cast hhigh
  omega

end Nearest

/-- Beyond the finite numbers infinity is nearest. -/
theorem nearest_iff_eq_infinite {m : ℕ} {q : ℚ} (h : (units infiniteMagnitude : ℚ) ≤ q) :
    Nearest m q ↔ m = infiniteMagnitude := by
  have hplace := place_mono (Nat.cast_nonneg _) h
  rw [place_units] at hplace
  constructor
  · rintro ⟨r, hr, rfl⟩
    have hlt : (infiniteMagnitude : ℚ) < r + 1 := by linarith [(abs_le.mp hr).1]
    exact min_eq_left (Nat.lt_succ_iff.mp (by exact_mod_cast hlt))
  · rintro rfl
    refine ⟨⌊place q + 1 / 2⌋₊, ?_, (min_eq_left (Nat.le_floor (by linarith))).symm⟩
    have hlow := Nat.floor_le (by linarith [Nat.cast_nonneg (α := ℚ) infiniteMagnitude] :
      0 ≤ place q + 1 / 2)
    have hhigh := Nat.lt_floor_add_one (place q + 1 / 2)
    rw [abs_le]
    constructor <;> linarith

/-- Below half a unit zero is nearest. -/
theorem nearest_iff_eq_zero {m : ℕ} {q : ℚ} (hq : 0 ≤ q) (h : q < 1 / 2) :
    Nearest m q ↔ m = 0 := by
  have hlow := place_nonneg hq
  have hhigh := place_le_self hq
  constructor
  · rintro ⟨r, hr, rfl⟩
    have hlt : (r : ℚ) < 1 := by linarith [(abs_le.mp hr).2]
    have hr : r = 0 := Nat.lt_one_iff.mp (by exact_mod_cast hlt)
    rw [hr, Nat.min_zero]
  · rintro rfl
    refine ⟨0, ?_, (Nat.min_zero _).symm⟩
    rw [Nat.cast_zero, zero_sub, abs_neg, abs_of_nonneg hlow]
    linarith

/-! ## Nearness -/

/-- Neither of two ratios, made smaller by the factor `c`, exceeds the other by more than `δ`. -/
def Near (c δ a b : ℚ) : Prop := c * a ≤ b + δ ∧ c * b ≤ a + δ

namespace Near

variable {a b e c c' δ δ' : ℚ}

theorem refl (hc : c ≤ 1) (ha : 0 ≤ a) : Near c 0 a a := by
  rw [Near, add_zero, and_self]
  exact mul_le_of_le_one_left ha hc

theorem symm (h : Near c δ a b) : Near c δ b a := ⟨h.2, h.1⟩

/-- Nearness is handed on, the factors multiplied and the summands added. -/
theorem trans (h : Near c δ a b) (h' : Near c' δ' b e) (hc : 0 ≤ c ∧ c ≤ 1)
    (hc' : 0 ≤ c' ∧ c' ≤ 1) (hδ : 0 ≤ δ) (hδ' : 0 ≤ δ') : Near (c * c') (δ + δ') a e := by
  constructor
  · calc c * c' * a = c' * (c * a) := by ring
      _ ≤ c' * (b + δ) := mul_le_mul_of_nonneg_left h.1 hc'.1
      _ = c' * b + c' * δ := by ring
      _ ≤ e + δ' + δ := add_le_add h'.1 (mul_le_of_le_one_left hδ hc'.2)
      _ = e + (δ + δ') := by ring
  · calc c * c' * e = c * (c' * e) := by ring
      _ ≤ c * (b + δ') := mul_le_mul_of_nonneg_left h'.2 hc.1
      _ = c * b + c * δ' := by ring
      _ ≤ a + δ + δ' := add_le_add h.2 (mul_le_of_le_one_left hδ' hc.2)
      _ = a + (δ + δ') := by ring

theorem mul_right (h : Near c δ a b) {k : ℚ} (hk : 0 ≤ k) : Near c (δ * k) (a * k) (b * k) := by
  constructor
  · rw [← mul_assoc, ← add_mul]
    exact mul_le_mul_of_nonneg_right h.1 hk
  · rw [← mul_assoc, ← add_mul]
    exact mul_le_mul_of_nonneg_right h.2 hk

/-- Products of near ratios are near. -/
theorem mul {p q : ℚ} (h : Near c 0 a b) (h' : Near c' 0 p q) (ha : 0 ≤ a) (hb : 0 ≤ b)
    (hp : 0 ≤ p) (hq : 0 ≤ q) (hc' : 0 ≤ c') : Near (c * c') 0 (a * p) (b * q) := by
  simp only [Near, add_zero] at h h' ⊢
  constructor
  · rw [mul_mul_mul_comm]
    exact mul_le_mul h.1 h'.1 (mul_nonneg hc' hp) hb
  · rw [mul_mul_mul_comm]
    exact mul_le_mul h.2 h'.2 (mul_nonneg hc' hq) ha

/-- Near divisors have near reciprocals. -/
theorem inv (h : Near c 0 a b) (ha : 0 < a) (hb : 0 < b) : Near c 0 a⁻¹ b⁻¹ := by
  simp only [Near, add_zero, ← div_eq_mul_inv] at h ⊢
  rw [inv_eq_one_div, inv_eq_one_div, div_le_div_iff₀ ha hb, div_le_div_iff₀ hb ha]
  constructor <;> linarith [h.1, h.2]

end Near

namespace Nearest

variable {m : ℕ} {q : ℚ}

/-- A finite magnitude stands within a half of the place of a ratio that is rounded to it. -/
theorem abs_place_sub_le (h : Nearest m q) (hm : m < infiniteMagnitude) :
    |place (units m) - place q| ≤ 1 / 2 := by
  obtain ⟨r, hr, rfl⟩ := h
  rw [place_units, min_eq_right (by omega)]
  exact hr

/-- **Rounding changes a ratio by a small factor** and half a unit. -/
theorem near_units (h : Nearest m q) (hm : m < infiniteMagnitude) (hq : 0 ≤ q) :
    Near (1 - 1 / 2 ^ 53) (1 / 2) (units m) q := by
  obtain ⟨hlow, hhigh⟩ := abs_le.mp (h.abs_place_sub_le hm)
  have hu : (0 : ℚ) ≤ units m := Nat.cast_nonneg _
  constructor
  · rcases le_add_of_place_le hu hq (by linarith) with hle | hle <;> linarith
  · rcases le_add_of_place_le hq hu (by linarith) with hle | hle <;> linarith

/-- Rounding changes a ratio with a full mantissa by a small factor only. -/
theorem near_units_of_le (h : Nearest m q) (hm : m < infiniteMagnitude) (hq : 2 ^ 52 ≤ q) :
    Near (1 - 1 / 2 ^ 53) 0 (units m) q := by
  obtain ⟨hlow, hhigh⟩ := abs_le.mp (h.abs_place_sub_le hm)
  have hu : (0 : ℚ) ≤ units m := Nat.cast_nonneg _
  have hq₀ : 0 ≤ q := le_trans (by norm_num) hq
  constructor
  · rcases le_add_of_place_le hu hq₀ (by linarith) with hle | hle <;> linarith
  · rcases le_add_of_place_le hq₀ hu (by linarith) with hle | hle <;> linarith

/-- **Near ratios are rounded to magnitudes that are close.** -/
theorem le_add_of_near {x y k : ℕ} {q q' c δ ε : ℚ} (hx : Nearest x q) (hy : Nearest y q')
    (h : Near c δ q q') (hq : 0 ≤ q) (hε : 0 ≤ ε) (hδ : 0 ≤ δ) (hc : 1 ≤ c * (1 + ε))
    (hk : ε * 2 ^ 53 + (1 + ε) * δ < k) : x ≤ y + k := by
  obtain ⟨r, hr, rfl⟩ := hx
  obtain ⟨r', hr', rfl⟩ := hy
  have hgrow : q ≤ q' * (1 + ε) + (1 + ε) * δ := calc
    q ≤ c * (1 + ε) * q := le_mul_of_one_le_left hq hc
    _ = (1 + ε) * (c * q) := by ring
    _ ≤ (1 + ε) * (q' + δ) := mul_le_mul_of_nonneg_left h.1 (by linarith)
    _ = q' * (1 + ε) + (1 + ε) * δ := by ring
  have hplace := place_le_add hq hε (mul_nonneg (by linarith) hδ) hgrow
  have hlt : (r : ℚ) < r' + k + 1 := by
    linarith [(abs_le.mp hr).2, (abs_le.mp hr').1]
  have hle : r ≤ r' + k := Nat.lt_succ_iff.mp (by exact_mod_cast hlt)
  omega

end Nearest

end Rulebook.Binary64
