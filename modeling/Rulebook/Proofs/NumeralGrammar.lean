import Rulebook.Number.Numeral
import Rulebook.Proofs.TextRuns

/-! # How numerals are written

The strict grammar of numerals, as one relation between texts and numerals (`Numeral.Strict`): a
minus sign or none, digits without an idle leading zero, a point with digits behind it or none, and
an exponent or none.  A text is taken for a numeral by the strict reader exactly if the grammar
writes it so (`strict_of_readStrict`), and a written numeral is read whole wherever no character
follows that could prolong it (`readStrict_append`).
-/
namespace Rulebook

/-! ## Digits -/

/-- Whether a character spells a digit. -/
def isDigitChar (c : Char) : Bool := (Digit.ofChar? c).isSome

namespace Digit

@[simp] theorem ofChar?_toChar : ∀ d : Digit, ofChar? d.toChar = some d := by decide

theorem isDigitChar_toChar (d : Digit) : isDigitChar d.toChar = true := by
  rw [isDigitChar, ofChar?_toChar, Option.isSome_some]

theorem isBlank_toChar : ∀ d : Digit, isBlank d.toChar = false := by decide

/-- Every character that spells a digit is the one that the digit is written by. -/
theorem toChar_of_ofChar? {c : Char} {d : Digit} (h : ofChar? c = some d) : d.toChar = c := by
  unfold ofChar? at h
  split at h
  · rename_i hc
    obtain rfl := Option.some.inj h
    have hle : (48 : Nat) ≤ c.toNat := hc.1
    have hsum : 48 + (c.toNat - 48) = c.toNat := by omega
    rw [toChar, hsum, Char.ofNat_toNat]
  · cases h

end Digit

theorem readDigits_append (ds : List Digit) {rest : List Char} (hr : Stops isDigitChar rest) :
    readDigits (ds.map Digit.toChar ++ rest) = (ds, rest) := by
  induction ds with
  | nil =>
    cases rest with
    | nil => rfl
    | cons c cs =>
      have hc : Digit.ofChar? c = none := by simpa [isDigitChar] using stops_cons.mp hr
      rw [List.map_nil, List.nil_append, readDigits, hc]
  | cons d ds ih => rw [List.map_cons, List.cons_append, readDigits, Digit.ofChar?_toChar, ih]

/-- The digits that are read are written at the front of the text. -/
theorem map_toChar_readDigits_append (cs : List Char) :
    (readDigits cs).1.map Digit.toChar ++ (readDigits cs).2 = cs := by
  induction cs with
  | nil => rfl
  | cons c cs ih =>
    rw [readDigits]
    split
    · rfl
    · rename_i d hd
      rw [List.map_cons, List.cons_append, ih, Digit.toChar_of_ofChar? hd]

namespace Numeral

/-! ## The grammar -/

/-- The forms of a fraction: none, or a point and digits. -/
inductive FractionForm : List Char → List Digit → Prop
  | absent : FractionForm [] []
  | present {ds : List Digit} (hne : ds ≠ []) : FractionForm ('.' :: ds.map Digit.toChar) ds

/-- The forms of an exponent: none, or a letter, a sign or none, and digits. -/
inductive ExponentForm : List Char → Option Int → Prop
  | absent : ExponentForm [] none
  | present {mark : Char} {sign : List Char} {ds : List Digit} (hmark : mark = 'e' ∨ mark = 'E')
    (hsign : sign = [] ∨ sign = ['+'] ∨ sign = ['-']) (hne : ds ≠ []) :
    ExponentForm (mark :: (sign ++ ds.map Digit.toChar))
      (some (if sign = ['-'] then -(Digit.natOf 0 ds : Int) else Digit.natOf 0 ds))

/-- The text writes the numeral by the strict grammar. -/
inductive Strict : List Char → Numeral → Prop
  | mk {negative : Bool} {whole fraction : List Digit} {exponent : Option Int}
    {point tail : List Char} (hwhole : whole ≠ []) (hzero : whole.head? = some 0 → whole.tail = [])
    (hfraction : FractionForm point fraction) (hexponent : ExponentForm tail exponent) :
    Strict ((if negative then ['-'] else []) ++ (whole.map Digit.toChar ++ (point ++ tail)))
      ⟨negative, whole, fraction, exponent⟩

/-- Whether a character behind a numeral could prolong it. -/
def isNumeralChar (c : Char) : Bool := isDigitChar c || c = '.' || c = 'e' || c = 'E'

theorem stops_isDigitChar {rest : List Char} (h : Stops isNumeralChar rest) :
    Stops isDigitChar rest := by
  intro c hc
  have hn := h c hc
  simp only [isNumeralChar, Bool.or_eq_false_iff] at hn
  exact hn.1.1.1

/-! ## Written numerals are read -/

theorem toChar_ne_sign : ∀ d : Digit, d.toChar ≠ '-' ∧ d.toChar ≠ '+' := by decide

/-- Digits are not taken for a sign. -/
theorem readSign_digits (plus : Bool) {ds : List Digit} (hne : ds ≠ []) (rest : List Char) :
    readSign plus (ds.map Digit.toChar ++ rest) = (false, ds.map Digit.toChar ++ rest) := by
  cases ds with
  | nil => exact absurd rfl hne
  | cons d ds =>
    obtain ⟨hm, hp⟩ := toChar_ne_sign d
    rw [List.map_cons, List.cons_append, readSign]
    · exact fun _ hcs => hm (List.cons.inj hcs).1
    · exact fun _ hcs => hp (List.cons.inj hcs).1

theorem readExponent_append {tail rest : List Char} {e : Option Int} (h : ExponentForm tail e)
    (hr : Stops isNumeralChar rest) : readExponent (tail ++ rest) = some (e, rest) := by
  cases h with
  | absent =>
    cases rest with
    | nil => rfl
    | cons c cs =>
      have hn := stops_cons.mp hr
      simp only [isNumeralChar, Bool.or_eq_false_iff, decide_eq_false_iff_not] at hn
      rw [List.nil_append, readExponent, if_neg (not_or.mpr ⟨hn.1.2, hn.2⟩)]
  | @present mark sign ds hmark hsign hne =>
    have hdigits := readDigits_append ds (stops_isDigitChar hr)
    rw [List.cons_append, List.append_assoc, readExponent, if_pos hmark]
    rcases hsign with rfl | rfl | rfl
    · rw [List.nil_append, readSign_digits true hne]
      simp [hdigits, hne]
    · simp [readSign, hdigits, hne]
    · simp [readSign, hdigits, hne]

/-- What follows a fraction and an exponent cannot prolong the digits in front of them. -/
theorem stops_isDigitChar_append {point tail rest : List Char} {ds : List Digit} {e : Option Int}
    (hf : FractionForm point ds) (he : ExponentForm tail e) (hr : Stops isNumeralChar rest) :
    Stops isDigitChar (point ++ (tail ++ rest)) := by
  cases hf with
  | present _ => exact stops_cons.mpr (by decide)
  | absent =>
    cases he with
    | absent => exact stops_isDigitChar hr
    | present hmark _ _ => rcases hmark with rfl | rfl <;> exact stops_cons.mpr (by decide)

/-- Neither an exponent nor what follows a numeral begins with a point. -/
theorem append_ne_point {tail rest : List Char} {e : Option Int} (he : ExponentForm tail e)
    (hr : Stops isNumeralChar rest) (cs : List Char) : tail ++ rest ≠ '.' :: cs := by
  intro hcs
  cases he with
  | absent =>
    rw [List.nil_append] at hcs
    rw [hcs] at hr
    exact absurd (stops_cons.mp hr) (by decide)
  | present hmark _ _ =>
    rcases hmark with rfl | rfl <;> exact absurd (List.cons.inj hcs).1 (by decide)

theorem readFraction_append {point tail rest : List Char} {ds : List Digit} {e : Option Int}
    (hf : FractionForm point ds) (he : ExponentForm tail e) (hr : Stops isNumeralChar rest) :
    readFraction (point ++ (tail ++ rest)) = (ds, tail ++ rest) := by
  cases hf with
  | present _ => exact readDigits_append ds (stops_isDigitChar_append .absent he hr)
  | absent =>
    rw [List.nil_append, readFraction]
    exact append_ne_point he hr

/-- **A written numeral is read whole**, if what follows cannot prolong it. -/
theorem readStrict_append {cs rest : List Char} {n : Numeral} (h : Strict cs n)
    (hr : Stops isNumeralChar rest) : readStrict (cs ++ rest) = some (n, rest) := by
  obtain @⟨negative, whole, fraction, exponent, point, tail, hwhole, hzero, hf, he⟩ := h
  have hsign : readSign false ((if negative then ['-'] else []) ++
      (whole.map Digit.toChar ++ (point ++ tail)) ++ rest) =
        (negative, whole.map Digit.toChar ++ (point ++ (tail ++ rest))) := by
    cases negative with
    | true => simp [readSign]
    | false => simpa using readSign_digits false hwhole (point ++ (tail ++ rest))
  have hdigits := readDigits_append whole (stops_isDigitChar_append hf he hr)
  have hidle : ¬ (whole = [] ∨ whole.head? = some 0 ∧ whole.tail ≠ []) := by
    rintro (hnil | ⟨hhead, htail⟩)
    · exact hwhole hnil
    · exact htail (hzero hhead)
  have hbare : ¬ ((point ++ (tail ++ rest)).head? = some '.' ∧ fraction = []) := by
    rintro ⟨hhead, hnil⟩
    obtain ⟨cs, hcs⟩ := List.head?_eq_some_iff.mp hhead
    cases hf with
    | present hne => exact hne hnil
    | absent => exact append_ne_point he hr cs hcs
  simp only [readStrict, hsign, hdigits, readFraction_append hf he hr, if_neg hidle, if_neg hbare,
    readExponent_append he hr, Option.map_some]

/-! ## What is read is written -/

/-- The sign that is taken off the front of a text is written there. -/
theorem exists_sign_readSign (plus : Bool) (cs : List Char) :
    ∃ sign, cs = sign ++ (readSign plus cs).2 ∧
      (sign = [] ∨ (plus = true ∧ sign = ['+']) ∨ sign = ['-']) ∧
        (readSign plus cs).1 = decide (sign = ['-']) := by
  unfold readSign
  split
  · exact ⟨['-'], rfl, .inr (.inr rfl), rfl⟩
  · cases plus with
    | true => exact ⟨['+'], rfl, .inr (.inl ⟨rfl, rfl⟩), rfl⟩
    | false => exact ⟨[], rfl, .inl rfl, rfl⟩
  · exact ⟨[], rfl, .inl rfl, rfl⟩

theorem exponentForm_of_readExponent {cs rest : List Char} {e : Option Int}
    (h : readExponent cs = some (e, rest)) : ∃ tail, cs = tail ++ rest ∧ ExponentForm tail e := by
  cases cs with
  | nil =>
    obtain ⟨rfl, rfl⟩ := Prod.mk.inj (Option.some.inj h)
    exact ⟨[], rfl, .absent⟩
  | cons c cs =>
    simp only [readExponent] at h
    split at h
    · rename_i hmark
      obtain ⟨sign, hcs, hsign, hneg⟩ := exists_sign_readSign true cs
      have hdigits := map_toChar_readDigits_append (readSign true cs).2
      split at h
      · cases h
      · rename_i hne
        obtain ⟨rfl, rfl⟩ := Prod.mk.inj (Option.some.inj h)
        refine ⟨c :: (sign ++ (readDigits (readSign true cs).2).1.map Digit.toChar), ?_, ?_⟩
        · rw [List.cons_append, List.append_assoc, hdigits, ← hcs]
        · rw [hneg]
          simpa using ExponentForm.present hmark (hsign.imp_right (Or.imp_left And.right)) hne
    · obtain ⟨rfl, rfl⟩ := Prod.mk.inj (Option.some.inj h)
      exact ⟨[], rfl, .absent⟩

theorem fractionForm_readFraction {cs : List Char}
    (h : ¬ (cs.head? = some '.' ∧ (readFraction cs).1 = [])) :
    ∃ point, cs = point ++ (readFraction cs).2 ∧ FractionForm point (readFraction cs).1 := by
  unfold readFraction at h ⊢
  split
  · rename_i cs
    have hne : (readDigits cs).1 ≠ [] := fun hnil => h ⟨rfl, hnil⟩
    refine ⟨'.' :: (readDigits cs).1.map Digit.toChar, ?_, .present hne⟩
    rw [List.cons_append, map_toChar_readDigits_append]
  · exact ⟨[], rfl, .absent⟩

/-- **What the strict reader takes off a text is written there** by the strict grammar. -/
theorem strict_of_readStrict {cs rest : List Char} {n : Numeral}
    (h : readStrict cs = some (n, rest)) : ∃ s, cs = s ++ rest ∧ Strict s n := by
  simp only [readStrict] at h
  split at h
  · cases h
  · rename_i hidle
    split at h
    · cases h
    · rename_i hbare
      obtain ⟨⟨e, rest'⟩, he, h⟩ := Option.map_eq_some_iff.mp h
      obtain ⟨rfl, rfl⟩ := Prod.mk.inj h
      obtain ⟨sign, hcs, hsign, hneg⟩ := exists_sign_readSign false cs
      obtain ⟨point, hpoint, hf⟩ := fractionForm_readFraction hbare
      obtain ⟨tail, htail, hexponent⟩ := exponentForm_of_readExponent he
      have hwhole := map_toChar_readDigits_append (readSign false cs).2
      refine ⟨_, ?_, .mk (fun hnil => hidle (.inl hnil)) (fun hhead => ?_) hf hexponent⟩
      · -- only a minus sign is taken, as the strict grammar writes no other
        have hminus : (if (readSign false cs).1 then ['-'] else []) = sign := by
          rw [hneg]
          rcases hsign with rfl | ⟨hplus, -⟩ | rfl
          · rfl
          · cases hplus
          · rfl
        rw [hminus, List.append_assoc, List.append_assoc, List.append_assoc, ← htail, ← hpoint,
          hwhole, ← hcs]
      · exact Decidable.byContradiction fun htail => hidle (.inr ⟨hhead, htail⟩)

/-- A text that the strict reader takes whole is a written numeral. -/
theorem strict_of_readStrict_nil {cs : List Char} {n : Numeral}
    (h : readStrict cs = some (n, [])) : Strict cs n := by
  obtain ⟨s, hs, hstrict⟩ := strict_of_readStrict h
  rwa [hs, List.append_nil]

/-- A written numeral holds no white space. -/
theorem Strict.isBlank_eq_false {d : List Char} {n : Numeral} (h : n.Strict d) :
    ∀ c ∈ d, isBlank c = false := by
  obtain @⟨negative, whole, fraction, exponent, point, tail, -, -, hf, he⟩ := h
  have hdigits : ∀ ds : List Digit, ∀ c ∈ ds.map Digit.toChar, isBlank c = false := by
    intro ds c hc
    obtain ⟨d, -, rfl⟩ := List.mem_map.mp hc
    exact Digit.isBlank_toChar d
  have hsign : ∀ c ∈ (if negative then ['-'] else []), isBlank c = false := by
    cases negative with
    | true => exact List.forall_mem_singleton.mpr (by decide)
    | false => exact List.forall_mem_nil _
  have hpoint : ∀ c ∈ point, isBlank c = false := by
    cases hf with
    | absent => exact List.forall_mem_nil _
    | present => exact List.forall_mem_cons.mpr ⟨by decide, hdigits _⟩
  have htail : ∀ c ∈ tail, isBlank c = false := by
    cases he with
    | absent => exact List.forall_mem_nil _
    | present hmark hsign hne =>
      refine List.forall_mem_cons.mpr ⟨?_, List.forall_mem_append.mpr ⟨?_, hdigits _⟩⟩
      · rcases hmark with rfl | rfl <;> decide
      · rcases hsign with rfl | rfl | rfl
        · exact List.forall_mem_nil _
        · exact List.forall_mem_singleton.mpr (by decide)
        · exact List.forall_mem_singleton.mpr (by decide)
  exact List.forall_mem_append.mpr
    ⟨hsign, List.forall_mem_append.mpr ⟨hdigits _, List.forall_mem_append.mpr ⟨hpoint, htail⟩⟩⟩

end Numeral

end Rulebook
