import Rulebook.Proofs.StepwiseReading

/-! # Two readings of one numeral

A numeral of a JSON text is read as an integer or by steps, and a literal of a rule is rounded at
once.  Whatever the digits and the power of ten, the magnitudes that the two arrive at lie at most
three places apart (`close_readMagnitude`): the steps take one of five ways through the powers of
ten, and each of them is close (`close_stepMagnitude`).

Where the digits fit in one word and the power of ten is small enough to be a magnitude, or is one,
the steps round once and both magnitudes are the same (`readMagnitude_eq`).
-/
namespace Rulebook

open Binary64

namespace Binary64

theorem mulMagnitude_zero (b : ℕ) : mulMagnitude 0 b = 0 := by
  rw [mulMagnitude, units_zero, zero_mul]
  exact nearestMagnitude_zero (Nat.mul_pos unitsPerOne_pos unitsPerOne_pos)

theorem divMagnitude_zero {b : ℕ} (hb : 0 < units b) : divMagnitude 0 b = 0 :=
  nearestMagnitude_zero hb

end Binary64

/-! ## The ways through the powers of ten -/

namespace Numeral

variable {m : ℕ} {e : ℤ}

theorem scaleByTen_of_lt (hm : m ≠ 0) (he : 308 < e) : scaleByTen m e = none := by
  rw [scaleByTen, if_pos he, if_neg hm]

theorem getD_scaleByTen_of_nonneg (he : 0 ≤ e) (he' : e ≤ 308) :
    (scaleByTen m e).getD infiniteMagnitude = mulMagnitude m (tenPower e.toNat) := by
  rw [scaleByTen, if_neg (by omega), if_pos he]
  dsimp only
  split
  · rename_i hinf
    rw [Option.getD_none, hinf]
  · rw [Option.getD_some]

theorem scaleByTen_of_neg (he : -308 ≤ e) (he' : e < 0) :
    scaleByTen m e = some (divMagnitude m (tenPower e.natAbs)) := by
  rw [scaleByTen, if_neg (by omega), if_neg (by omega), if_pos he]

theorem scaleByTen_of_lt_neg (hm : m ≠ 0) (he : e < -308) :
    scaleByTen m e = scaleByTen (divMagnitude m (tenPower 308)) (e + 308) := by
  rw [scaleByTen, if_neg (by omega), if_neg (by omega), if_neg (by omega), if_neg hm]

theorem scaleByTen_zero (e : ℤ) : scaleByTen 0 e = some 0 := by
  rw [scaleByTen]
  split
  · rfl
  split
  · rw [mulMagnitude_zero]
    rfl
  split
  · rw [divMagnitude_zero (units_tenPower_pos (by omega))]
  · rfl

theorem divMagnitude_tenPower_lt {k : ℕ} (hk : k < 309) (hm : m < infiniteMagnitude) :
    divMagnitude m (tenPower k) < infiniteMagnitude :=
  (divMagnitude_le m (unitsPerOne_le_tenPower hk)).trans_lt hm

theorem mulMagnitude_le (a b : ℕ) : mulMagnitude a b ≤ infiniteMagnitude := Nat.min_le_left _ _

/-- What the steps arrive at is finite. -/
theorem lt_infinite_of_scaleByTen {x : ℕ} (hm : m < infiniteMagnitude)
    (h : scaleByTen m e = some x) : x < infiniteMagnitude := by
  fun_induction scaleByTen m e with
  | case1 => exact Option.some.inj h ▸ by decide
  | case2 => cases h
  | case3 => cases h
  | case4 m e h308 h0 product hfinite =>
    obtain rfl := Option.some.inj h
    exact lt_of_le_of_ne (mulMagnitude_le _ _) hfinite
  | case5 m e h308 h0 hlow =>
    obtain rfl := Option.some.inj h
    exact divMagnitude_tenPower_lt (by omega) hm
  | case6 => exact Option.some.inj h ▸ by decide
  | case7 m e h308 h0 hlow hne ih => exact ih (divMagnitude_tenPower_lt (by decide) hm) h

/-- The magnitude that the steps arrive at, infinity where they leave the finite numbers. -/
def stepMagnitude (n : Numeral) : ℕ :=
  (scaleByTen (Binary64.nearestMagnitude n.word 1) n.wordScale).getD infiniteMagnitude

theorem stepwise_eq (n : Numeral) : n.stepwise =
    if n.stepMagnitude < infiniteMagnitude then some (ofMagnitude n.negative n.stepMagnitude)
    else none := by
  have hsteps : n.stepwise = (scaleByTen (Binary64.nearestMagnitude n.word 1) n.wordScale).map
      (ofMagnitude n.negative) := rfl
  rw [hsteps, stepMagnitude]
  cases hx : scaleByTen (Binary64.nearestMagnitude n.word 1) n.wordScale with
  | some x =>
    have hlt := lt_infinite_of_scaleByTen (nearestMagnitude_word_lt n.word_lt) hx
    rw [Option.getD_some, if_pos hlt, Option.map_some]
  | none => rw [Option.getD_none, if_neg (lt_irrefl _), Option.map_none]

theorem stepMagnitude_le (n : Numeral) : n.stepMagnitude ≤ infiniteMagnitude := by
  unfold stepMagnitude
  cases hx : scaleByTen (Binary64.nearestMagnitude n.word 1) n.wordScale with
  | some x => exact (lt_infinite_of_scaleByTen (nearestMagnitude_word_lt n.word_lt) hx).le
  | none => exact le_rfl

/-- **The steps lead close to the magnitude of the literal.** -/
theorem close_stepMagnitude (n : Numeral) : Close n.stepMagnitude n.nearestMagnitude := by
  unfold stepMagnitude
  have hw := n.word_lt
  have hm := near_units_word hw
  have hfinite := nearestMagnitude_word_lt hw
  have hnear := n.near_size_word
  have hy := n.nearest_size
  have hv := n.size_nonneg
  generalize n.nearestMagnitude = y at *
  generalize n.size = v at *
  generalize n.wordScale = e at *
  generalize n.word = w at *
  have hone := unitScale_pos
  rcases Nat.eq_zero_or_pos w with rfl | hpos
  · -- a word of zero leaves nothing but zeros
    have hzero : v = 0 := by
      have := hnear.2
      rw [Nat.cast_zero, zero_mul, add_zero] at this
      linarith
    rw [hzero, zero_mul, nearest_iff_eq_zero le_rfl (by norm_num)] at hy
    rw [nearestMagnitude_zero Nat.one_pos, scaleByTen_zero, Option.getD_some, hy]
    exact .refl 0
  have hne : Binary64.nearestMagnitude w 1 ≠ 0 := by
    intro hzero
    have hle := hm.2
    rw [hzero, units_zero, Nat.cast_zero, add_zero] at hle
    have hword : (0 : ℚ) < w * unitScale := mul_pos (by exact_mod_cast hpos) hone
    linarith
  generalize Binary64.nearestMagnitude w 1 = m at *
  rcases lt_or_ge 308 e with h308 | h308
  · rw [scaleByTen_of_lt hne h308, eq_infinite_of_lt hpos h308 hnear hy, Option.getD_none]
    exact .refl _
  rcases le_or_gt 0 e with h0 | h0
  · rw [getD_scaleByTen_of_nonneg h0 h308]
    exact close_mulMagnitude hm h0 h308 hnear hv hy
  rcases le_or_gt (-308) e with h308' | h308'
  · rw [scaleByTen_of_neg h308' h0, Option.getD_some]
    exact close_divMagnitude hm h308' h0.le hnear hv hy
  rw [scaleByTen_of_lt_neg hne h308']
  rcases le_or_gt (-616) e with h616 | h616
  · rw [scaleByTen_of_neg (by omega) (by omega), Option.getD_some]
    exact close_divMagnitude_divMagnitude hm hfinite hw h616 h308' hnear hv hy
  · obtain ⟨hzero, rfl⟩ := eq_zero_of_lt hm hfinite hw h616 hnear hv hy
    rcases Decidable.em (divMagnitude m (tenPower 308) = 0) with hfirst | hfirst
    · rw [hfirst, scaleByTen_zero, Option.getD_some]
      exact .refl _
    · rw [scaleByTen_of_lt_neg hfirst (by omega), hzero, scaleByTen_zero, Option.getD_some]
      exact .refl _

end Numeral

/-! ## Numbers that are read exactly -/

namespace Binary64

/-- A whole number of at most 53 bits is one of the magnitudes. -/
theorem exists_units_eq {w : ℕ} (hw : w ≤ 2 ^ 53) :
    ∃ k ≤ infiniteMagnitude, units k = w * unitsPerOne := by
  rcases Nat.eq_zero_or_pos w with rfl | hpos
  · exact ⟨0, Nat.zero_le _, by rw [units_zero, Nat.zero_mul]⟩
  rcases hw.eq_or_lt with rfl | hlt
  · refine ⟨(1075 + 1) * perBinade, by decide, Nat.cast_injective (R := ℚ) ?_⟩
    rw [units_mul_perBinade, cast_mul_unitsPerOne, unitScale_eq_pow, Nat.cast_pow,
      Nat.cast_ofNat, ← pow_add]
  -- the digits are moved up until they fill a mantissa
  have hlog : w.log2 < 53 := (Nat.log2_lt hpos.ne').mpr hlt
  have hlow : 2 ^ 52 ≤ w * 2 ^ (52 - w.log2) := calc
    2 ^ 52 = 2 ^ w.log2 * 2 ^ (52 - w.log2) := by rw [← pow_add]; congr 1; omega
    _ ≤ w * 2 ^ (52 - w.log2) := Nat.mul_le_mul_right _ (Nat.log2_self_le hpos.ne')
  have hhigh : w * 2 ^ (52 - w.log2) < 2 ^ 53 := calc
    w * 2 ^ (52 - w.log2) < 2 ^ (w.log2 + 1) * 2 ^ (52 - w.log2) :=
      Nat.mul_lt_mul_of_pos_right Nat.lt_log2_self (Nat.two_pow_pos _)
    _ = 2 ^ 53 := by rw [← pow_add]; congr 1; omega
  have hinfinite : infiniteMagnitude = 2047 * 2 ^ 52 := rfl
  refine ⟨(w.log2 + 1022) * 2 ^ 52 + w * 2 ^ (52 - w.log2), by omega, ?_⟩
  have hexp : 52 - w.log2 + (w.log2 + 1022) = 1074 := by omega
  rw [units_line hlow hhigh, mul_assoc, ← pow_add, hexp, unitsPerOne_eq]

/-- A whole number of at most 53 bits is not rounded. -/
theorem units_nearestMagnitude_of_le {w : ℕ} (hw : w ≤ 2 ^ 53) :
    units (nearestMagnitude w 1) = w * unitsPerOne := by
  obtain ⟨k, hk, hunits⟩ := exists_units_eq hw
  have h := nearest_word w
  rw [← cast_mul_unitsPerOne, ← hunits] at h
  rw [h.eq_of_units hk, hunits]

theorem roundHalfEven_mul_right (num den : ℕ) {k : ℕ} (hk : 0 < k) :
    roundHalfEven (num * k) (den * k) = roundHalfEven num den := by
  have hlt : 2 * (num % den * k) < den * k ↔ 2 * (num % den) < den := by
    rw [← Nat.mul_assoc, Nat.mul_lt_mul_right hk]
  have heq : 2 * (num % den * k) = den * k ↔ 2 * (num % den) = den := by
    rw [← Nat.mul_assoc, Nat.mul_left_inj hk.ne']
  simp only [roundHalfEven, Nat.mul_div_mul_right _ _ hk, Nat.mul_mod_mul_right, hlt, heq]

/-- Only the ratio of two numbers is rounded. -/
theorem nearestMagnitude_mul_right (num den : ℕ) {k : ℕ} (hk : 0 < k) :
    nearestMagnitude (num * k) (den * k) = nearestMagnitude num den := by
  simp only [nearestMagnitude, Nat.mul_right_comm _ k, Nat.mul_div_mul_right _ _ hk,
    roundHalfEven_mul_right _ _ hk]

end Binary64

namespace Numeral

/-- The numerals whose digits fit in a word that is rounded once at most. -/
def ExactlyRead (n : Numeral) : Prop :=
  n.mantissa = 0 ∨ (n.mantissa < 2 ^ 64 ∧ n.scale = 0) ∨
    (n.mantissa ≤ 2 ^ 53 ∧ n.scale.natAbs ≤ 22)

instance (n : Numeral) : Decidable n.ExactlyRead := inferInstanceAs (Decidable (_ ∨ _ ∨ _))

variable {n : Numeral}

/-- Digits that fit in one word are all taken. -/
theorem word_eq_of_lt (h : n.mantissa < 2 ^ 64) : n.word = n.mantissa ∧ n.wordScale = n.scale := by
  have hwhole : Digit.natOf 0 n.whole < 2 ^ 64 := calc
    Digit.natOf 0 n.whole ≤ Digit.natOf 0 n.whole * 10 ^ n.fraction.length :=
      Nat.le_mul_of_pos_right _ (by positivity)
    _ ≤ n.mantissa := (Digit.natOf_bounds _ _).1
    _ < 2 ^ 64 := h
  have hfraction : fillWord (Digit.natOf 0 n.whole) n.fraction = (n.mantissa, []) :=
    fillWord_of_lt h
  rw [word, wordScale, fillWord_of_lt hwhole, hfraction]
  exact ⟨rfl, by simp [scale]⟩

/-- Few digits and a small power of ten are rounded as they are. -/
theorem nearestMagnitude_eq (h : n.mantissa < 2 ^ 64) (hs : n.scale.natAbs ≤ 22) :
    n.nearestMagnitude =
      if 0 ≤ n.scale then Binary64.nearestMagnitude (n.mantissa * 10 ^ n.scale.toNat) 1
      else Binary64.nearestMagnitude n.mantissa (10 ^ n.scale.natAbs) := by
  unfold nearestMagnitude
  split
  · rename_i hzero
    rw [hzero, zero_mul, nearestMagnitude_zero Nat.one_pos,
      nearestMagnitude_zero (Nat.pow_pos (by decide)), ite_self]
  rename_i hne
  obtain ⟨l, hl, hlow, -⟩ := n.mantissa_bounds hne
  have hlength : l < 20 := by
    have hlt : 10 ^ l < 10 ^ 20 := (hlow.trans_lt h).trans (by decide)
    exact (Nat.pow_lt_pow_iff_right (by decide)).mp hlt
  rw [if_neg (by omega), if_neg (by omega)]
  rfl

theorem mulMagnitude_tenPower_zero {m : ℕ} (h : m ≤ infiniteMagnitude) :
    mulMagnitude m (tenPower 0) = m := by
  have hpower : units (tenPower 0) = unitsPerOne := by
    rw [units_tenPower_of_le 0 (by decide), pow_zero, one_mul]
  have hx := nearest_mulMagnitude m (tenPower 0)
  rw [hpower, ← unitScale_eq, mul_div_cancel_right₀ _ (ne_of_gt unitScale_pos)] at hx
  exact hx.eq_of_units h

/-- A product of exact magnitudes is rounded once. -/
theorem mulMagnitude_exact {w k : ℕ} (hw : w ≤ 2 ^ 53) (hk : k ≤ 22) :
    mulMagnitude (Binary64.nearestMagnitude w 1) (tenPower k) =
      Binary64.nearestMagnitude (w * 10 ^ k) 1 := by
  have hpos := Nat.mul_pos unitsPerOne_pos unitsPerOne_pos
  rw [mulMagnitude, units_nearestMagnitude_of_le hw, units_tenPower_of_le k (by omega),
    mul_mul_mul_comm, ← nearestMagnitude_mul_right (w * 10 ^ k) 1 hpos, one_mul]

/-- A quotient of exact magnitudes is rounded once. -/
theorem divMagnitude_exact {w k : ℕ} (hw : w ≤ 2 ^ 53) (hk : k ≤ 22) :
    divMagnitude (Binary64.nearestMagnitude w 1) (tenPower k) =
      Binary64.nearestMagnitude w (10 ^ k) := by
  rw [divMagnitude, units_nearestMagnitude_of_le hw, units_tenPower_of_le k (by omega),
    nearestMagnitude_mul_right _ _ unitsPerOne_pos]

/-- **One rounding of exact parts is the rounding of the whole.** -/
theorem stepMagnitude_eq (h : n.ExactlyRead) : n.stepMagnitude = n.nearestMagnitude := by
  unfold stepMagnitude
  rcases h with hzero | ⟨hm, hs⟩ | ⟨hm, hs⟩
  · obtain ⟨hword, -⟩ := word_eq_of_lt (hzero.trans_lt (by decide) : n.mantissa < 2 ^ 64)
    rw [hword, hzero, nearestMagnitude_zero Nat.one_pos, scaleByTen_zero, Option.getD_some,
      nearestMagnitude, if_pos hzero]
  · obtain ⟨hword, hscale⟩ := word_eq_of_lt hm
    have hfinite := nearestMagnitude_word_lt hm
    rw [nearestMagnitude_eq hm (by omega), hword, hscale, hs,
      getD_scaleByTen_of_nonneg le_rfl (by decide), Int.toNat_zero,
      mulMagnitude_tenPower_zero hfinite.le, if_pos le_rfl, pow_zero, Nat.mul_one]
  · have hlt : n.mantissa < 2 ^ 64 := hm.trans_lt (by decide)
    obtain ⟨hword, hscale⟩ := word_eq_of_lt hlt
    rw [nearestMagnitude_eq hlt hs, hword, hscale]
    split
    · rename_i h0
      rw [getD_scaleByTen_of_nonneg h0 (by omega), mulMagnitude_exact hm (by omega)]
    · rw [scaleByTen_of_neg (by omega) (by omega), Option.getD_some, divMagnitude_exact hm hs]

/-! ## The value of a numeral in a JSON text -/

/-- The magnitude that a numeral of a JSON text is read as, infinity if it has no value. -/
def readMagnitude (n : Numeral) : ℕ :=
  match n.integer? with
  | some i => Binary64.nearestMagnitude i.natAbs 1
  | none => n.stepMagnitude

theorem readMagnitude_le (n : Numeral) : n.readMagnitude ≤ infiniteMagnitude := by
  unfold readMagnitude
  split
  · exact Nat.min_le_left _ _
  · exact n.stepMagnitude_le

/-- An integer is a numeral of few digits without point and exponent. -/
theorem of_integer? {i : ℤ} (h : n.integer? = some i) :
    n.mantissa < 2 ^ 64 ∧ n.scale = 0 ∧ i.natAbs = n.mantissa ∧ decide (i < 0) = n.negative := by
  obtain ⟨negative, whole, fraction, exponent⟩ := n
  simp only [integer?] at h
  split at h
  · cases h
  · rename_i hform
    obtain ⟨rfl, rfl⟩ : fraction = [] ∧ exponent = none := by simpa using hform
    have hmantissa : mantissa ⟨negative, whole, [], none⟩ = Digit.natOf 0 whole := rfl
    rw [hmantissa]
    cases negative with
    | true =>
      rw [if_pos rfl] at h
      split at h
      · rename_i hsize
        obtain rfl := Option.some.inj h
        exact ⟨hsize.2.trans_lt (by decide), rfl, by omega, decide_eq_true (by omega)⟩
      · cases h
    | false =>
      rw [if_neg Bool.false_ne_true] at h
      split at h
      · rename_i hsize
        obtain rfl := Option.some.inj h
        exact ⟨hsize, rfl, Int.natAbs_natCast _, decide_eq_false (by omega)⟩
      · cases h

/-- The readings as magnitudes: of an integer, or by steps. -/
theorem value?_eq (n : Numeral) : n.value?.map NumberValue.toBinary64 =
    if n.readMagnitude < infiniteMagnitude then some (ofMagnitude n.negative n.readMagnitude)
    else none := by
  unfold value? readMagnitude
  cases hi : n.integer? with
  | some i =>
    obtain ⟨hm, -, habs, hneg⟩ := of_integer? hi
    have hlt := nearestMagnitude_word_lt hm
    simp only [habs, if_pos hlt, Option.map_some, NumberValue.toBinary64, Binary64.ofInt, hneg]
  | none =>
    simp only [Option.map_map, stepwise_eq]
    split <;> rfl

/-- **The two readings of a numeral are close.** -/
theorem close_readMagnitude (n : Numeral) : Close n.readMagnitude n.nearestMagnitude := by
  unfold readMagnitude
  split
  · rename_i i hi
    obtain ⟨hm, hs, habs, -⟩ := of_integer? hi
    rw [nearestMagnitude_eq hm (by omega), habs, hs, if_pos le_rfl, Int.toNat_zero, pow_zero,
      Nat.mul_one]
    exact .refl _
  · exact close_stepMagnitude n

/-- **The two readings of a numeral are one** where it is read exactly. -/
theorem readMagnitude_eq (h : n.ExactlyRead) : n.readMagnitude = n.nearestMagnitude := by
  unfold readMagnitude
  split
  · rename_i i hi
    obtain ⟨hm, hs, habs, -⟩ := of_integer? hi
    rw [nearestMagnitude_eq hm (by omega), habs, hs, if_pos le_rfl, Int.toNat_zero, pow_zero,
      Nat.mul_one]
  · exact stepMagnitude_eq h

end Numeral

end Rulebook
