import Rulebook.Proofs.ClauseGrammar
import Rulebook.Proofs.CorrectRounding
import Rulebook.Proofs.LiteralGrammar

/-! # What a literal stands for

A literal in quotes is the text between them (`Scalar.ofLiteral_of_inQuotes`).  Any other one is a
number or a text: the number that its value rounds to, if it is written as a numeral that does not
overflow, and the text that it is otherwise (`Scalar.ofLiteral_cases`).

No numeral stands in quotes, so it is a number unless it overflows (`Scalar.ofLiteral_of_free`), and
whatever a condition compares with is finite (`Condition.isFinite_of_parse`).  How a value is
spelled makes no difference to a comparison (`Scalar.exists_numEq_of_value_eq`).
-/
namespace Rulebook

open Binary64

namespace Numeral

/-- A text writes one numeral at most. -/
theorem Free.unique {cs : List Char} {n n' : Numeral} (h : Free cs n) (h' : Free cs n') :
    n = n' := by
  rw [← ofLiteral?_eq_some_iff] at h h'
  exact Option.some.inj (h.symm.trans h')

/-- No numeral begins with a quote. -/
theorem Free.head_ne_quote {q : Char} {cs : List Char} {n : Numeral} (hq : q = '\'' ∨ q = '"') :
    ¬ Free (q :: cs) n := by
  intro h
  have hread := ofLiteral?_of_free h
  have hnone : ofLiteral? (q :: cs) = none := by
    rcases hq with rfl | rfl <;> rfl
  rw [hnone] at hread
  cases hread

end Numeral

namespace Scalar

variable {cs inner : List Char}

/-- The text stands between two equal quotes. -/
def InQuotes (cs inner : List Char) : Prop := ∃ q, (q = '\'' ∨ q = '"') ∧ cs = q :: (inner ++ [q])

theorem unquoted?_eq_some_iff : unquoted? cs = some inner ↔ InQuotes cs inner := by
  constructor
  · intro h
    cases cs with
    | nil => cases h
    | cons q cs =>
      rw [unquoted?] at h
      split at h
      · rename_i hquotes
        obtain rfl := Option.some.inj h
        obtain ⟨hq, hlast⟩ := hquotes
        exact ⟨q, hq, by rw [List.dropLast_append_getLast? q hlast]⟩
      · cases h
  · rintro ⟨q, hq, rfl⟩
    rw [unquoted?, if_pos ⟨hq, by simp⟩, List.dropLast_concat]

theorem unquoted?_eq_none (h : ∀ inner, ¬ InQuotes cs inner) : unquoted? cs = none := by
  cases hu : unquoted? cs with
  | none => rfl
  | some inner => exact absurd (unquoted?_eq_some_iff.mp hu) (h inner)

/-- **What stands in quotes is a text**, whatever it is. -/
theorem ofLiteral_of_inQuotes (h : InQuotes (trimBlank cs) inner) :
    ofLiteral cs = .text (String.ofList inner) := by
  rw [ofLiteral, unquoted?_eq_some_iff.mpr h]

/-- **What stands in no quotes is a number or a text**: the number nearest to a numeral that does
not overflow, and otherwise the text that it is. -/
theorem ofLiteral_cases (h : ∀ inner, ¬ InQuotes (trimBlank cs) inner) :
    (∃ n, Numeral.Free (trimBlank cs) n ∧ n.nearestMagnitude < infiniteMagnitude ∧
        ofLiteral cs = .number n.nearest) ∨
      (¬ ∃ n, Numeral.Free (trimBlank cs) n ∧ n.nearestMagnitude < infiniteMagnitude) ∧
        ofLiteral cs = .text (String.ofList (trimBlank cs)) := by
  have hbare : ofLiteral cs = ofBareLiteral (trimBlank cs) := by
    rw [ofLiteral, unquoted?_eq_none h]
  rw [hbare, ofBareLiteral]
  cases hn : Numeral.ofLiteral? (trimBlank cs) with
  | none =>
    refine .inr ⟨?_, rfl⟩
    rintro ⟨n, hfree, -⟩
    rw [Numeral.ofLiteral?_of_free hfree] at hn
    cases hn
  | some n =>
    have hfree := Numeral.free_of_ofLiteral? hn
    by_cases hlt : n.nearestMagnitude < infiniteMagnitude
    · exact .inl ⟨n, hfree, hlt, if_pos (n.isFinite_nearest.mpr hlt)⟩
    · refine .inr ⟨?_, if_neg (mt n.isFinite_nearest.mp hlt)⟩
      rintro ⟨n', hfree', hlt'⟩
      rw [hfree.unique hfree'] at hlt
      exact hlt hlt'

/-- A literal that stands for a number is a numeral in no quotes, and the number is finite. -/
theorem exists_of_ofLiteral_eq_number {x : Binary64} (h : ofLiteral cs = .number x) :
    ∃ n, Numeral.Free (trimBlank cs) n ∧ n.nearestMagnitude < infiniteMagnitude ∧
      n.nearest = x := by
  have hbare : ∀ inner, ¬ InQuotes (trimBlank cs) inner := by
    intro inner hquotes
    rw [ofLiteral_of_inQuotes hquotes] at h
    cases h
  rcases ofLiteral_cases hbare with ⟨n, hfree, hlt, heq⟩ | ⟨-, heq⟩
  · rw [heq] at h
    exact ⟨n, hfree, hlt, Scalar.number.inj h⟩
  · rw [heq] at h
    cases h

theorem isFinite_of_ofLiteral {x : Binary64} (h : ofLiteral cs = .number x) :
    x.isFinite = true := by
  obtain ⟨n, -, hlt, rfl⟩ := exists_of_ofLiteral_eq_number h
  exact n.isFinite_nearest.mpr hlt

/-- A literal that stands for a number is a numeral, if no blanks stand around it. -/
theorem free_of_ofLiteral_eq_number {x : Binary64} (htrim : trimBlank cs = cs)
    (h : ofLiteral cs = .number x) : ∃ n, Numeral.Free cs n := by
  obtain ⟨n, hfree, -⟩ := exists_of_ofLiteral_eq_number h
  exact ⟨n, htrim ▸ hfree⟩

/-- What stands in no quotes and is no numeral is the text that it is. -/
theorem ofLiteral_of_not_free (hbare : ∀ inner, ¬ InQuotes (trimBlank cs) inner)
    (h : ¬ ∃ n, Numeral.Free (trimBlank cs) n) :
    ofLiteral cs = .text (String.ofList (trimBlank cs)) := by
  rcases ofLiteral_cases hbare with ⟨n, hfree, -, -⟩ | ⟨-, heq⟩
  · exact absurd ⟨n, hfree⟩ h
  · exact heq

/-- **A numeral is a number** if it does not overflow, and otherwise a text. -/
theorem ofLiteral_of_free {n : Numeral} (h : Numeral.Free (trimBlank cs) n) :
    ofLiteral cs = if n.nearestMagnitude < infiniteMagnitude then .number n.nearest
      else .text (String.ofList (trimBlank cs)) := by
  have hbare : ∀ inner, ¬ InQuotes (trimBlank cs) inner := by
    rintro inner ⟨q, hq, hcs⟩
    rw [hcs] at h
    exact Numeral.Free.head_ne_quote hq h
  rcases ofLiteral_cases hbare with ⟨n', hfree, hlt, heq⟩ | ⟨hnone, heq⟩
  · rw [heq, h.unique hfree, if_pos hlt]
  · rw [heq, if_neg fun hlt => hnone ⟨n, h, hlt⟩]

/-- **Two spellings of one value are numbers that compare equal**, if one of them is a number. -/
theorem exists_numEq_of_value_eq {cs' : List Char} {n n' : Numeral}
    (h : Numeral.Free (trimBlank cs) n) (h' : Numeral.Free (trimBlank cs') n')
    (hvalue : n.value = n'.value) {x : Binary64} (hx : ofLiteral cs = .number x) :
    ∃ y, ofLiteral cs' = .number y ∧ x.numEq y = true := by
  obtain ⟨n₀, hfree, hlt, rfl⟩ := exists_of_ofLiteral_eq_number hx
  obtain rfl := hfree.unique h
  have hlt' : n'.nearestMagnitude < infiniteMagnitude := by
    rw [n'.nearestMagnitude_lt_iff, ← hvalue, ← n₀.nearestMagnitude_lt_iff]
    exact hlt
  have hnum := isNaN_of_isFinite (n₀.isFinite_nearest.mpr hlt)
  have hnum' := isNaN_of_isFinite (n'.isFinite_nearest.mpr hlt')
  refine ⟨n'.nearest, by rw [ofLiteral_of_free h', if_pos hlt'], ?_⟩
  rw [numEq_eq_true_iff, toEReal_inj hnum hnum']
  exact ⟨hnum, hnum', Numeral.rank_nearest_eq hvalue⟩

end Scalar

/-- **No condition compares with an infinity**, or with what is no number. -/
theorem Condition.isFinite_of_parse {text : String} {c : Condition} {x : Binary64}
    (h : parse text = .ok c) (hx : c.value = .number x) : x.isFinite = true := by
  obtain ⟨-, clause, -, -, -, -, -, rfl⟩ := parse?_eq_some_iff.mp (parse_eq_ok_iff.mp h)
  exact Scalar.isFinite_of_ofLiteral hx

namespace Scalar

/-- **What a literal stands for.**  White space around it does not count.  In quotes it is the text
between them.  Otherwise it is the number that the exact value of a numeral rounds to, with the sign
of the numeral, if it is written as one that does not overflow; and else it is the text that it is.
So conditions compare with finite numbers only, and numerals of one value compare equal. -/
theorem literal_classes (cs : List Char) :
    (∀ inner, InQuotes (trimBlank cs) inner → ofLiteral cs = .text (String.ofList inner)) ∧
    ((∀ inner, ¬ InQuotes (trimBlank cs) inner) →
      (∀ x, ofLiteral cs = .number x ↔ ∃ n, Numeral.Free (trimBlank cs) n ∧
        x.isNegative = n.negative ∧ RoundsTo n.value x) ∧
      ∀ s, ofLiteral cs = .text s ↔ s = String.ofList (trimBlank cs) ∧
        ¬ ∃ n, Numeral.Free (trimBlank cs) n ∧ |n.value| < overflow) ∧
    (∀ text c x, Condition.parse text = .ok c → c.value = .number x → x.isFinite = true) ∧
    ∀ cs' n n', Numeral.Free (trimBlank cs) n → Numeral.Free (trimBlank cs') n' →
      n.value = n'.value → ∀ x, ofLiteral cs = .number x →
        ∃ y, ofLiteral cs' = .number y ∧ x.numEq y = true := by
  refine ⟨fun inner => ofLiteral_of_inQuotes, ?_, ?_, ?_⟩
  · intro hbare
    constructor
    · intro x
      constructor
      · intro h
        obtain ⟨n, hfree, hlt, rfl⟩ := exists_of_ofLiteral_eq_number h
        have hs := n.isNegative_nearest
        exact ⟨n, hfree, hs, (n.roundsTo_value_iff hs).mpr ⟨hlt, rfl⟩⟩
      · rintro ⟨n, hfree, hs, hrounds⟩
        obtain ⟨hlt, rfl⟩ := (n.roundsTo_value_iff hs).mp hrounds
        rw [ofLiteral_of_free hfree, if_pos hlt]
    · intro s
      simp only [← Numeral.nearestMagnitude_lt_iff]
      rcases ofLiteral_cases hbare with ⟨n, hfree, hlt, heq⟩ | ⟨hnone, heq⟩
      · rw [heq]
        refine iff_of_false (fun h => by cases h) ?_
        rintro ⟨-, hnone⟩
        exact hnone ⟨n, hfree, hlt⟩
      · rw [heq, Scalar.text.injEq, eq_comm]
        exact (and_iff_left hnone).symm
  · intro text c x h hx
    exact Condition.isFinite_of_parse h hx
  · intro cs' n n' h h' hvalue x hx
    exact exists_numEq_of_value_eq h h' hvalue hx

theorem literal_classes_spellings :
    ofLiteral "\t'3 0 '\n".toList = .text "3 0 " ∧
    (∃ x, ofLiteral "30".toList = .number x ∧
      ∃ n, Numeral.Free "30".toList n ∧ x.isNegative = n.negative ∧ RoundsTo n.value x) ∧
    (∃ x, ofLiteral "30".toList = .number x ∧
      ∃ y, ofLiteral " +300.E-1".toList = .number y ∧ x.numEq y = true) ∧
    (∀ n, Numeral.Free "2e308".toList n → overflow ≤ |n.value|) ∧
    ∃ x, Condition.parse "a = 30" = .ok ⟨"a", .equal, .number x⟩ ∧ x.isFinite = true := by
  have hthirty : ofLiteral "30".toList = .number ⟨0x403e000000000000⟩ := by decide +kernel
  have hplain : Numeral.Free (trimBlank "30".toList) ⟨false, [3, 0], [], none⟩ :=
    Numeral.free_of_ofLiteral? (by decide +kernel)
  have hscaled : Numeral.Free (trimBlank " +300.E-1".toList) ⟨false, [3, 0, 0], [], some (-1)⟩ :=
    Numeral.free_of_ofLiteral? (by decide +kernel)
  have hvalue : Numeral.value ⟨false, [3, 0], [], none⟩ =
      Numeral.value ⟨false, [3, 0, 0], [], some (-1)⟩ := by
    norm_num [Numeral.value, signed, Numeral.size, Numeral.mantissa, Numeral.scale, Digit.natOf]
  have hbare : ∀ d, unquoted? (trimBlank d) = none → ∀ inner, ¬ InQuotes (trimBlank d) inner := by
    intro d hnone inner hquotes
    rw [unquoted?_eq_some_iff.mpr hquotes] at hnone
    cases hnone
  refine ⟨?_, ⟨_, hthirty, ?_⟩, ⟨_, hthirty, ?_⟩, ?_, ?_⟩
  · exact (literal_classes _).1 "3 0 ".toList ⟨'\'', .inl rfl, by decide +kernel⟩
  · exact (((literal_classes _).2.1 (hbare _ (by decide +kernel))).1 _).mp hthirty
  · exact (literal_classes _).2.2.2 _ _ _ hplain hscaled hvalue _ hthirty
  · intro n hfree
    have htext :=
      (((literal_classes "2e308".toList).2.1 (hbare _ (by decide +kernel))).2 "2e308").mp
        (by decide +kernel)
    by_contra hlt
    exact htext.2 ⟨n, hfree, not_le.mp hlt⟩
  · have hparse : Condition.parse "a = 30" = .ok ⟨"a", .equal, .number ⟨0x403e000000000000⟩⟩ := by
      decide +kernel
    exact ⟨_, hparse, (literal_classes []).2.2.1 _ _ _ hparse rfl⟩

end Scalar

end Rulebook
