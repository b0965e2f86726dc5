import Rulebook.Clause
import Rulebook.Proofs.NumeralGrammar

/-! # How numbers are written in literals

The free grammar of numerals: a sign or none, digits with a point among them, in front of them,
behind them or not at all (`Numeral.DigitsForm`), and an exponent or none, whose digits may have a
sign of their own.  A literal number is read exactly from what is written so
(`Numeral.ofLiteral?_eq_some_iff`).  The free grammar includes the strict one
(`Numeral.Strict.free`), so a strictly written numeral is also read as a literal, and as the same
numeral.

A numeral has a sign in two places only: at its beginning, and behind the letter of its exponent.
What stands between, the digits with their point and the letter, are bare characters
(`Numeral.DigitsForm.isBareChar`).
-/
namespace Rulebook

namespace Numeral

/-! ## The grammar -/

/-- The forms of the digits in front of an exponent, with the digits on the two sides of the
point. -/
inductive DigitsForm : List Char → List Digit → List Digit → Prop
  | whole {ds : List Digit} (hne : ds ≠ []) : DigitsForm (ds.map Digit.toChar) ds []
  | pointed {ds es : List Digit} (hne : ds ≠ [] ∨ es ≠ []) :
    DigitsForm (ds.map Digit.toChar ++ '.' :: es.map Digit.toChar) ds es

/-- The text writes the numeral by the free grammar. -/
inductive Free : List Char → Numeral → Prop
  | mk {sign body tail : List Char} {whole fraction : List Digit} {exponent : Option Int}
    (hsign : sign = [] ∨ sign = ['+'] ∨ sign = ['-']) (hbody : DigitsForm body whole fraction)
    (hexponent : ExponentForm tail exponent) :
    Free (sign ++ (body ++ tail)) ⟨decide (sign = ['-']), whole, fraction, exponent⟩

theorem DigitsForm.ne_nil {body : List Char} {ds es : List Digit} (h : DigitsForm body ds es) :
    body ≠ [] := by
  cases h with
  | whole hne => simpa using hne
  | pointed _ => simp

/-- The digits that are read on the two sides of a point are written there. -/
theorem digitsForm_readFraction {ds : List Digit} {cs : List Char}
    (h : ¬ (ds = [] ∧ (readFraction cs).1 = [])) :
    ∃ body, ds.map Digit.toChar ++ cs = body ++ (readFraction cs).2 ∧
      DigitsForm body ds (readFraction cs).1 := by
  by_cases hdot : ∃ rest, cs = '.' :: rest
  · obtain ⟨rest, rfl⟩ := hdot
    rw [readFraction] at h ⊢
    refine ⟨ds.map Digit.toChar ++ '.' :: (readDigits rest).1.map Digit.toChar, ?_,
      .pointed (not_and_or.mp h)⟩
    rw [List.append_assoc, List.cons_append, map_toChar_readDigits_append]
  · have hnone : readFraction cs = ([], cs) := by
      unfold readFraction
      split
      · exact absurd ⟨_, rfl⟩ hdot
      · rfl
    rw [hnone] at h ⊢
    exact ⟨ds.map Digit.toChar, rfl, .whole fun hnil => h ⟨hnil, rfl⟩⟩

/-- **What is read as the number of a literal is written so.** -/
theorem free_of_ofLiteral? {cs : List Char} {n : Numeral} (h : ofLiteral? cs = some n) :
    Free cs n := by
  simp only [ofLiteral?] at h
  split at h
  · cases h
  · rename_i hsome
    split at h
    · rename_i exponent he
      obtain rfl := Option.some.inj h
      obtain ⟨sign, hcs, hsign, hneg⟩ := exists_sign_readSign true cs
      obtain ⟨body, hbody, hdigits⟩ := digitsForm_readFraction hsome
      obtain ⟨tail, htail, hexponent⟩ := exponentForm_of_readExponent he
      rw [List.append_nil] at htail
      have htext : cs = sign ++ (body ++ tail) := by
        rw [← htail, ← hbody, map_toChar_readDigits_append]
        exact hcs
      have hfree := Free.mk (hsign.imp_right (Or.imp_left And.right)) hdigits hexponent
      rwa [← htext, ← hneg] at hfree
    · cases h

/-- Digits with their point are not taken for a sign. -/
theorem DigitsForm.readSign_append {body : List Char} {ds es : List Digit}
    (h : DigitsForm body ds es) (rest : List Char) :
    readSign true (body ++ rest) = (false, body ++ rest) := by
  cases h with
  | whole hne => exact readSign_digits true hne rest
  | pointed _ =>
    by_cases hds : ds = []
    · subst hds
      rfl
    · rw [List.append_assoc]
      exact readSign_digits true hds _

/-- The digits on the two sides of a point are read whole, if an exponent follows or nothing. -/
theorem DigitsForm.readDigits_append {body tail : List Char} {ds es : List Digit} {e : Option Int}
    (h : DigitsForm body ds es) (he : ExponentForm tail e) :
    (readDigits (body ++ tail)).1 = ds ∧
      readFraction (readDigits (body ++ tail)).2 = (es, tail) := by
  have hnone : Stops isNumeralChar [] := stops_nil _
  have htail : Stops isDigitChar tail := by
    have hstops := stops_isDigitChar_append .absent he hnone
    rwa [List.nil_append, List.append_nil] at hstops
  cases h with
  | whole _ =>
    have hfraction := readFraction_append .absent he hnone
    rw [List.nil_append, List.append_nil] at hfraction
    rw [Rulebook.readDigits_append ds htail]
    exact ⟨rfl, hfraction⟩
  | pointed _ =>
    rw [List.append_assoc, List.cons_append,
      Rulebook.readDigits_append ds (stops_cons.mpr (by decide))]
    exact ⟨rfl, Rulebook.readDigits_append es htail⟩

theorem DigitsForm.not_both_nil {body : List Char} {ds es : List Digit}
    (h : DigitsForm body ds es) : ¬ (ds = [] ∧ es = []) := by
  rintro ⟨rfl, rfl⟩
  cases h with
  | whole hne => exact hne rfl
  | pointed hne => exact hne.elim (fun h => h rfl) fun h => h rfl

/-- **What is written by the free grammar is read as the number of a literal.** -/
theorem ofLiteral?_of_free {cs : List Char} {n : Numeral} (h : Free cs n) :
    ofLiteral? cs = some n := by
  obtain @⟨sign, body, tail, whole, fraction, exponent, hsign, hbody, hexponent⟩ := h
  have hread : readSign true (sign ++ (body ++ tail)) = (decide (sign = ['-']), body ++ tail) := by
    rcases hsign with rfl | rfl | rfl
    · exact hbody.readSign_append tail
    · rfl
    · rfl
  obtain ⟨hwhole, hfraction⟩ := hbody.readDigits_append hexponent
  have hrest := readExponent_append hexponent (stops_nil _)
  rw [List.append_nil] at hrest
  simp only [ofLiteral?, hread, hwhole, hfraction, if_neg hbody.not_both_nil, hrest]

theorem ofLiteral?_eq_some_iff {cs : List Char} {n : Numeral} :
    ofLiteral? cs = some n ↔ Free cs n := ⟨free_of_ofLiteral?, ofLiteral?_of_free⟩

/-- The free grammar includes the strict one. -/
theorem Strict.free {cs : List Char} {n : Numeral} (h : Strict cs n) : Free cs n := by
  obtain @⟨negative, whole, fraction, exponent, point, tail, hwhole, -, hf, he⟩ := h
  have hbody : DigitsForm (whole.map Digit.toChar ++ point) whole fraction := by
    cases hf with
    | absent =>
      rw [List.append_nil]
      exact .whole hwhole
    | present _ => exact .pointed (.inl hwhole)
  rw [← List.append_assoc (whole.map Digit.toChar)]
  cases negative with
  | true => exact @Free.mk ['-'] _ _ _ _ _ (.inr (.inr rfl)) hbody he
  | false => exact @Free.mk [] _ _ _ _ _ (.inl rfl) hbody he

/-! ## The characters of a numeral -/

theorem isBareChar_toChar : ∀ d : Digit, Clause.isBareChar d.toChar = true := by decide

theorem isBareChar_of_mem_digits {ds : List Digit} {c : Char} (h : c ∈ ds.map Digit.toChar) :
    Clause.isBareChar c = true := by
  obtain ⟨d, -, rfl⟩ := List.mem_map.mp h
  exact isBareChar_toChar d

/-- The digits in front of an exponent, with their point, can stand in a bare literal. -/
theorem DigitsForm.isBareChar {body : List Char} {ds es : List Digit} (h : DigitsForm body ds es) :
    ∀ c ∈ body, Clause.isBareChar c = true := by
  intro c hc
  cases h with
  | whole _ => exact isBareChar_of_mem_digits hc
  | pointed _ =>
    rcases List.mem_append.mp hc with hc | hc
    · exact isBareChar_of_mem_digits hc
    · rcases List.mem_cons.mp hc with rfl | hc
      · decide
      · exact isBareChar_of_mem_digits hc

theorem isBareChar_mark {mark : Char} (h : mark = 'e' ∨ mark = 'E') :
    Clause.isBareChar mark = true := by
  rcases h with rfl | rfl <;> decide

end Numeral

end Rulebook
