import Rulebook.Condition
import Rulebook.Proofs.JsonAcceptance
import Rulebook.Proofs.LiteralClasses
import Rulebook.Proofs.NumberAgreement
import Rulebook.Record.Document

/-! # Numbers in records and in rules

The same numeral can stand in a record and in a rule.  The record has the number that the steps of
a JSON text lead to (`Record.fromJson_numeralText`), and the literal is the number nearest to the
numeral (`Scalar.ofLiteral_of_strict`).  The two are close, and the same where the numeral is read
exactly (`record_and_literal_agree`), but they are not the same number of every numeral
(`record_and_literal_differ`).
-/
namespace Rulebook

open Binary64

namespace Scalar

/-- **A written numeral is a literal**: a number if it is finite, and a text otherwise. -/
theorem ofLiteral_of_strict {d : List Char} {n : Numeral} (h : Numeral.Strict d n) :
    ofLiteral d = if n.nearestMagnitude < infiniteMagnitude then
      .number (.ofMagnitude n.negative n.nearestMagnitude) else .text (String.ofList d) := by
  have htrim := trimBlank_eq_self h.isBlank_eq_false
  have hliteral := ofLiteral_of_free (n := n) (htrim.symm ▸ h.free)
  rwa [htrim] at hliteral

end Scalar

namespace Record

/-- The text of the record that has the numeral `d` for its only attribute. -/
def numeralText (d : List Char) : String :=
  String.ofList (['\x7b', '"', 'a', '"', ':', ' '] ++ (d ++ ['\x7d']))

open Json in
/-- The text of the record spells one field. -/
theorem parse?_numeralText {d : List Char} {n : Numeral} (h : n.Strict d) :
    Json.parse? (numeralText d) = some (.object [(some "a", .atom (.number n))]) := by
  have hbody : IsBody ['a'] [.char 'a'] :=
    .cons (.plain (by decide) (by decide) (by decide)) .nil
  have hjoin : (joinPieces [.char 'a']).map String.ofList = some "a" := by decide
  have hkey := Lexeme.Written.text hbody
  rw [hjoin] at hkey
  have hnone : ∀ c ∈ ([] : List Char), isSpace c = true := List.forall_mem_nil _
  have hspace : ∀ c ∈ [' '], isSpace c = true := List.forall_mem_singleton.mpr (by decide)
  have hspaced := Spaced.cons hnone .openObject (.cons hnone hkey (.cons hnone .colon
    (.cons hspace (.number h) (.cons hnone .closeObject (.nil hnone)))))
  rw [parse?_eq_some_iff, numeralText, String.toList_ofList]
  exact hspaced

theorem blame_notJson (text : String) : Json.blame text .notJson = .notJson := by
  unfold Json.blame
  split <;> rfl

theorem readScalar_number (n : Numeral) :
    readScalar (.atom (.number n)) = if n.readMagnitude < infiniteMagnitude then
      .ok (.number (.ofMagnitude n.negative n.readMagnitude)) else .error .notJson := by
  have hvalue := n.value?_eq
  cases hv : n.value? with
  | some x =>
    rw [hv, Option.map_some] at hvalue
    split at hvalue
    · rename_i hlt
      simp only [readScalar, hv, if_pos hlt, Option.some.inj hvalue]
    · cases hvalue
  | none =>
    rw [hv, Option.map_none] at hvalue
    split at hvalue
    · cases hvalue
    · rename_i hnot
      simp only [readScalar, hv, if_neg hnot]

/-- **The record has the number that the steps lead to**, if they lead to a finite one. -/
theorem fromJson_numeralText {d : List Char} {n : Numeral} (h : n.Strict d) :
    fromJson (numeralText d) = if n.readMagnitude < infiniteMagnitude then
      .ok (empty.insert "a" (.number (.ofMagnitude n.negative n.readMagnitude)))
      else .error (.document .notJson) := by
  rw [fromJson, parse?_numeralText h]
  dsimp only [ofJson, readFields]
  rw [readScalar_number]
  split
  · rfl
  · rw [Except.bind, Except.mapError, blame_notJson]

end Record

/-! ## The two readers -/

/-- **A number in a record and in a rule.**  Of every numeral the two readers find numbers of the
same sign at most three places apart, infinity counted as a place: the record is refused, and the
literal is a text, where the number found is infinite.  Both find the same number of a numeral that
is read exactly, and the record satisfies the equation with the literal only where they do. -/
theorem record_and_literal_agree {d : List Char} {n : Numeral} (h : n.Strict d) :
    ∃ x ≤ infiniteMagnitude, ∃ y ≤ infiniteMagnitude,
      (x ≤ y + 3 ∧ y ≤ x + 3) ∧ (n.ExactlyRead → x = y) ∧
      Record.fromJson (Record.numeralText d) = (if x < infiniteMagnitude then
        .ok (Record.empty.insert "a" (.number (.ofMagnitude n.negative x)))
        else .error (.document .notJson)) ∧
      Scalar.ofLiteral d = (if y < infiniteMagnitude then
        .number (.ofMagnitude n.negative y) else .text (String.ofList d)) ∧
      ∀ r, Record.fromJson (Record.numeralText d) = .ok r →
        ((Condition.mk "a" .equal (Scalar.ofLiteral d)).holds r = true ↔ x = y) := by
  refine ⟨n.readMagnitude, n.readMagnitude_le, n.nearestMagnitude, n.nearestMagnitude_le,
    n.close_readMagnitude, n.readMagnitude_eq, Record.fromJson_numeralText h,
    Scalar.ofLiteral_of_strict h, fun r hr => ?_⟩
  rw [Record.fromJson_numeralText h] at hr
  split at hr
  · rename_i hx
    obtain rfl := Except.ok.inj hr
    rw [Condition.holds, Record.get?_insert, if_pos rfl, Scalar.ofLiteral_of_strict h]
    by_cases hy : n.nearestMagnitude < infiniteMagnitude
    · rw [if_pos hy]
      exact numEq_ofMagnitude n.negative hx hy
    · rw [if_neg hy]
      exact iff_of_false Bool.false_ne_true (by omega)
  · cases hr

theorem record_and_literal_agree_scientific :
    ∃ r, Record.fromJson (Record.numeralText "-1.5e-7".toList) = .ok r ∧
      (Condition.mk "a" .equal (Scalar.ofLiteral "-1.5e-7".toList)).holds r = true := by
  have hstrict : Numeral.Strict "-1.5e-7".toList ⟨true, [1], [5], some (-7)⟩ :=
    Numeral.strict_of_readStrict_nil (by decide +kernel)
  obtain ⟨x, -, y, -, -, hexact, hrecord, hliteral, hholds⟩ := record_and_literal_agree hstrict
  obtain rfl := hexact (by decide)
  by_cases hx : x < infiniteMagnitude
  · rw [if_pos hx] at hrecord
    exact ⟨_, hrecord, (hholds _ hrecord).mpr rfl⟩
  · rw [if_neg hx] at hliteral
    exact absurd hliteral (by decide +kernel)

/-- **The two readers differ** on some numerals.  The thirtieth power of a tenth, written out, is a
place lower in the record than in the rule.  The largest finite number, written with 17 digits, is
refused for the record. -/
theorem record_and_literal_differ :
    (∃ r, Record.fromJson (Record.numeralText "0.000000000000000000000000000001".toList) = .ok r ∧
      r.get? "a" = some (.number ⟨0x39b4484bfeebc29f⟩) ∧
      Scalar.ofLiteral "0.000000000000000000000000000001".toList = .number ⟨0x39b4484bfeebc2a0⟩ ∧
      (Condition.mk "a" .equal
        (Scalar.ofLiteral "0.000000000000000000000000000001".toList)).holds r = false) ∧
    (∃ n, Numeral.Strict "1.7976931348623158e308".toList n) ∧
      Record.fromJson (Record.numeralText "1.7976931348623158e308".toList) =
        .error (.document .notJson) ∧
      Scalar.ofLiteral "1.7976931348623158e308".toList = .number ⟨0x7fefffffffffffff⟩ := by
  have htiny : Numeral.Strict "0.000000000000000000000000000001".toList
      ⟨false, [0], List.replicate 29 0 ++ [1], none⟩ :=
    Numeral.strict_of_readStrict_nil (by decide +kernel)
  have hhuge : Numeral.Strict "1.7976931348623158e308".toList
      ⟨false, [1], [7, 9, 7, 6, 9, 3, 1, 3, 4, 8, 6, 2, 3, 1, 5, 8], some 308⟩ :=
    Numeral.strict_of_readStrict_nil (by decide +kernel)
  have hlow : Numeral.readMagnitude ⟨false, [0], List.replicate 29 0 ++ [1], none⟩ =
      0x39b4484bfeebc29f := by decide +kernel
  have hrecord := Record.fromJson_numeralText htiny
  rw [hlow, if_pos (by decide)] at hrecord
  refine ⟨⟨_, hrecord, ?_, by decide +kernel, ?_⟩, ⟨_, hhuge⟩, ?_, by decide +kernel⟩
  · rw [Record.get?_insert, if_pos rfl]
    decide +kernel
  · rw [Condition.holds, Record.get?_insert, if_pos rfl]
    decide +kernel
  · rw [Record.fromJson_numeralText hhuge, if_neg (by decide +kernel)]

end Rulebook
