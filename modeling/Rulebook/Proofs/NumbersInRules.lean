import Mathlib.Data.List.Basic
import Rulebook.Proofs.LiteralClasses
import Rulebook.Proofs.ReadableTrees
import Rulebook.Proofs.TokenSeams

/-! # What becomes of a number in a rule

A literal in a rule is a run of bare characters, perhaps behind a minus sign.  A number without a
plus sign in front and without a sign on its exponent is such a run, so it is taken whole.  With a
plus sign in front it begins no literal, and nothing in it is a token
(`Token.scan_of_isSignedChar`), so the rule has none.  With a sign on its exponent the run ends
behind the letter of the exponent (`SignedExponent`): what stands behind it is passed over like all
that is no token, and what is kept is no number any more (`Scalar.ofLiteral_kept`).

These are the three cases of `number_in_rule`, and the last one is that of a number that is
misread.
-/
namespace Rulebook

namespace Numeral

/-! ## The characters of a numeral -/

/-- Whether a character stands in numerals, signs included. -/
def isSignedChar (c : Char) : Bool := isNumeralChar c || c = '+' || c = '-'

theorem isSignedChar_toChar : ∀ d : Digit, isSignedChar d.toChar = true := by decide

theorem isSignedChar_digits (ds : List Digit) :
    ∀ c ∈ ds.map Digit.toChar, isSignedChar c = true := by
  intro c hc
  obtain ⟨d, -, rfl⟩ := List.mem_map.mp hc
  exact isSignedChar_toChar d

theorem isSignedChar_sign {sign : List Char} (h : sign = [] ∨ sign = ['+'] ∨ sign = ['-']) :
    ∀ c ∈ sign, isSignedChar c = true := by
  rcases h with rfl | rfl | rfl
  · exact List.forall_mem_nil _
  · exact List.forall_mem_singleton.mpr (by decide)
  · exact List.forall_mem_singleton.mpr (by decide)

theorem Free.isSignedChar {d : List Char} {n : Numeral} (h : Free d n) :
    ∀ c ∈ d, isSignedChar c = true := by
  obtain @⟨sign, body, tail, whole, fraction, exponent, hsign, hbody, hexponent⟩ := h
  refine List.forall_mem_append.mpr
    ⟨isSignedChar_sign hsign, List.forall_mem_append.mpr ⟨?_, ?_⟩⟩
  · cases hbody with
    | whole _ => exact isSignedChar_digits _
    | pointed _ =>
      exact List.forall_mem_append.mpr ⟨isSignedChar_digits _,
        List.forall_mem_cons.mpr ⟨by decide, isSignedChar_digits _⟩⟩
  · cases hexponent with
    | absent => exact List.forall_mem_nil _
    | present hmark hsign' _ =>
      refine List.forall_mem_cons.mpr ⟨?_, List.forall_mem_append.mpr
        ⟨isSignedChar_sign hsign', isSignedChar_digits _⟩⟩
      rcases hmark with rfl | rfl <;> decide

end Numeral

/-! ## Texts without tokens -/

namespace Token

open Numeral (isSignedChar)

/-- No word of a connective and no comparator can be written with the characters of numerals. -/
theorem isSignedChar_symbol (o : Comparator) : isSignedChar o.symbol = false := by
  cases o <;> decide

theorem exists_not_isSignedChar_word (k : Connective) :
    ∃ c ∈ k.word.toList, isSignedChar c = false := by
  cases k with
  | and => exact ⟨'A', List.mem_cons_self, by decide⟩
  | or => exact ⟨'O', List.mem_cons_self, by decide⟩

/-- **The characters of numerals make no token by themselves.** -/
theorem scan_of_isSignedChar {cs : List Char} (h : ∀ c ∈ cs, isSignedChar c = true) :
    scan cs = [] := by
  fun_induction scan cs with
  | case1 => rfl
  | case2 | case3 => exact absurd (h _ List.mem_cons_self) (by decide)
  | case4 c tail _ _ _ k hk _ =>
    -- the word of the connective would be made of these characters
    have hword := eq_word_of_ofWord? hk
    obtain ⟨x, hx, hnot⟩ := exists_not_isSignedChar_word k
    rw [← hword] at hx
    exact absurd (h x (List.takeWhile_subset _ hx)) (by simp [hnot])
  | case5 c tail _ _ _ _ clause rest hread _ _ =>
    -- so would the comparator of the clause
    have hmem : clause.comparator.symbol ∈ c :: tail := by
      rw [← Clause.spelling_append hread, Clause.spelling]
      simp
    exact absurd (h _ hmem) (by simp [isSignedChar_symbol])
  | case6 c tail _ _ _ _ _ ih =>
    exact ih fun x hx => h x (List.mem_cons_of_mem _ ((List.dropWhile_suffix _).subset hx))
  | case7 c tail _ _ _ ih => exact ih fun x hx => h x (List.mem_cons_of_mem _ hx)

/-- A comparator that no clause is made of is passed over. -/
theorem scan_symbol_cons (o : Comparator) (cs : List Char) : scan (o.symbol :: cs) = scan cs := by
  refine scan_cons_of_skipped ?_ ?_ o.isWordChar_symbol cs <;> cases o <;> decide

end Token

/-! ## Where a numeral is cut -/

namespace Numeral

/-- A numeral is a run of bare characters, perhaps behind a sign, and perhaps with a sign in front
of its last digits; such a sign stands behind the letter of an exponent. -/
theorem Free.exists_run {d : List Char} {n : Numeral} (h : Free d n) :
    ∃ (sign run inner : List Char) (ds : List Digit),
      d = (sign ++ run) ++ (inner ++ ds.map Digit.toChar) ∧
        (sign = [] ∨ sign = ['+'] ∨ sign = ['-']) ∧ run ≠ [] ∧
        (∀ c ∈ run, Clause.isBareChar c = true) ∧
        (inner = [] ∨ (inner = ['+'] ∨ inner = ['-']) ∧
          (run.getLast? = some 'e' ∨ run.getLast? = some 'E')) := by
  obtain @⟨sign, body, tail, whole, fraction, exponent, hsign, hbody, hexponent⟩ := h
  cases hexponent with
  | absent =>
    exact ⟨sign, body, [], [], by simp, hsign, hbody.ne_nil, hbody.isBareChar, .inl rfl⟩
  | @present mark inner ds hmark hinner hne =>
    refine ⟨sign, body ++ [mark], inner, ds, by simp, hsign, by simp, ?_, ?_⟩
    · exact List.forall_mem_append.mpr
        ⟨hbody.isBareChar, List.forall_mem_singleton.mpr (isBareChar_mark hmark)⟩
    · refine hinner.imp_right fun hinner => ⟨hinner, ?_⟩
      rw [List.getLast?_concat]
      exact hmark.imp (congrArg some) (congrArg some)

/-- A numeral ends with a digit or a point. -/
theorem Free.getLast?_ne {d : List Char} {n : Numeral} (h : Free d n) :
    d.getLast? ≠ some 'e' ∧ d.getLast? ≠ some 'E' := by
  have hdigit : ∀ d : Digit, d.toChar ≠ 'e' ∧ d.toChar ≠ 'E' := by decide
  -- it is enough to find a last character that is no letter
  suffices hlast : ∃ front c, d = front ++ [c] ∧ c ≠ 'e' ∧ c ≠ 'E' by
    obtain ⟨front, c, rfl, he, hE⟩ := hlast
    rw [List.getLast?_concat]
    exact ⟨fun hc => he (Option.some.inj hc), fun hc => hE (Option.some.inj hc)⟩
  have hdigits : ∀ (front : List Char) {ds : List Digit}, ds ≠ [] →
      ∃ front' c, front ++ ds.map Digit.toChar = front' ++ [c] ∧ c ≠ 'e' ∧ c ≠ 'E' := by
    intro front ds hne
    refine ⟨front ++ ds.dropLast.map Digit.toChar, (ds.getLast hne).toChar, ?_, hdigit _⟩
    rw [List.append_assoc, ← List.map_singleton, ← List.map_append,
      List.dropLast_concat_getLast]
  obtain @⟨sign, body, tail, whole, fraction, exponent, hsign, hbody, hexponent⟩ := h
  cases hexponent with
  | absent =>
    rw [List.append_nil]
    cases hbody with
    | whole hne => exact hdigits sign hne
    | pointed _ =>
      by_cases hes : fraction = []
      · subst hes
        exact ⟨sign ++ whole.map Digit.toChar, '.', by simp, by decide⟩
      · obtain ⟨front, c, hc, hne⟩ := hdigits (sign ++ (whole.map Digit.toChar ++ ['.'])) hes
        exact ⟨front, c, by rw [← hc]; simp, hne⟩
  | @present mark inner ds hmark hinner hne =>
    obtain ⟨front, c, hc, hne⟩ := hdigits (sign ++ (body ++ mark :: inner)) hne
    exact ⟨front, c, by rw [← hc]; simp, hne⟩

end Numeral

/-- A numeral text `d` has a sign on its exponent, in front of which it is cut in two: what is kept
ends with the letter of the exponent, and what is dropped begins with the sign. -/
def SignedExponent (d kept dropped : List Char) : Prop :=
  d = kept ++ dropped ∧ (kept.getLast? = some 'e' ∨ kept.getLast? = some 'E') ∧
    (dropped.head? = some '+' ∨ dropped.head? = some '-')

/-- What begins with a sign begins with a character that is not bare. -/
theorem exists_sign_cons {cs : List Char} (h : cs.head? = some '+' ∨ cs.head? = some '-') :
    ∃ s after, cs = s :: after ∧ Clause.isBareChar s = false := by
  rcases h with h | h <;> obtain ⟨after, rfl⟩ := List.head?_eq_some_iff.mp h
  · exact ⟨'+', after, rfl, by decide⟩
  · exact ⟨'-', after, rfl, by decide⟩

/-- Without a plus sign in front, only a minus sign is left. -/
theorem eq_nil_or_minus {sign run cs : List Char}
    (h : sign = [] ∨ sign = ['+'] ∨ sign = ['-']) (hplus : (sign ++ run ++ cs).head? ≠ some '+') :
    sign = [] ∨ sign = ['-'] := by
  rcases h with rfl | rfl | rfl
  · exact .inl rfl
  · exact absurd rfl hplus
  · exact .inr rfl

/-- A sign behind the first character of a numeral is the one that stands in front of its last
digits. -/
theorem eq_of_sign_cons {kept after pre inner : List Char} {s : Char} {ds : List Digit}
    (hs : Clause.isBareChar s = false) (hkept : kept ≠ [])
    (hpre : ∀ c ∈ pre.tail, Clause.isBareChar c = true) (hinner : inner.length ≤ 1)
    (h : kept ++ s :: after = pre ++ (inner ++ ds.map Digit.toChar)) : kept = pre := by
  have hdigits : s ∉ ds.map Digit.toChar := by
    intro hmem
    rw [Numeral.isBareChar_of_mem_digits hmem] at hs
    cases hs
  have hfront : s ∉ pre.tail := by
    intro hmem
    rw [hpre s hmem] at hs
    cases hs
  rcases List.append_eq_append_iff.mp h with ⟨a, rfl, ha⟩ | ⟨a, rfl, ha⟩
  · cases a with
    | nil => exact (List.append_nil kept).symm
    | cons x a =>
      obtain ⟨rfl, -⟩ := List.cons.inj ha
      obtain ⟨y, kept, rfl⟩ := List.exists_cons_of_ne_nil hkept
      exact absurd (by simp) hfront
  · cases a with
    | nil => exact List.append_nil pre
    | cons x a =>
      -- the sign stands behind `x`, so among the digits
      cases inner with
      | nil =>
        rw [List.nil_append] at ha
        exact absurd (by rw [ha]; simp) hdigits
      | cons y inner =>
        obtain rfl : inner = [] := List.length_eq_zero_iff.mp (by simpa using hinner)
        have htail : ds.map Digit.toChar = a ++ s :: after := (List.cons.inj ha).2
        exact absurd (by rw [htail]; simp) hdigits

namespace Numeral

variable {d : List Char} {n : Numeral}

/-- A numeral without a plus sign in front and without a sign on its exponent is a bare literal. -/
theorem Free.isLiteral (h : Free d n) (hplus : d.head? ≠ some '+')
    (hnone : ¬ ∃ kept dropped, SignedExponent d kept dropped) : Clause.IsLiteral d := by
  obtain ⟨sign, run, inner, ds, rfl, hsign, hne, hrun, hinner⟩ := h.exists_run
  rcases hinner with rfl | ⟨hinner, hlast⟩
  · have hsign' := eq_nil_or_minus hsign hplus
    rw [List.nil_append, List.append_assoc]
    refine .bare hsign' (by simp [hne]) ?_
    exact List.forall_mem_append.mpr ⟨hrun, fun c hc => isBareChar_of_mem_digits hc⟩
  · refine absurd ⟨sign ++ run, inner ++ ds.map Digit.toChar, rfl, ?_, ?_⟩ hnone
    · rwa [List.getLast?_append_of_ne_nil sign hne]
    · exact hinner.imp (by rintro rfl; rfl) (by rintro rfl; rfl)

/-- What is kept of a numeral with a sign on its exponent is a bare literal up to the letter of the
exponent, if there is no plus sign in front. -/
theorem Free.exists_kept (h : Free d n) (hplus : d.head? ≠ some '+') {kept dropped : List Char}
    (hcut : SignedExponent d kept dropped) :
    ∃ sign run, kept = sign ++ run ∧ (sign = [] ∨ sign = ['-']) ∧ run ≠ [] ∧
      (∀ c ∈ run, Clause.isBareChar c = true) ∧
      (run.getLast? = some 'e' ∨ run.getLast? = some 'E') := by
  obtain ⟨hsplit, hkept, hdropped⟩ := hcut
  obtain ⟨s, after, rfl, hs⟩ := exists_sign_cons hdropped
  obtain ⟨sign, run, inner, ds, rfl, hsign, hne, hrun, hinner⟩ := h.exists_run
  have hsign' := eq_nil_or_minus hsign hplus
  have hkeptne : kept ≠ [] := by
    rintro rfl
    simp at hkept
  have hpre : ∀ c ∈ (sign ++ run).tail, Clause.isBareChar c = true := by
    rcases hsign' with rfl | rfl
    · exact fun c hc => hrun c (List.mem_of_mem_tail hc)
    · exact hrun
  have hlength : inner.length ≤ 1 := by
    rcases hinner with rfl | ⟨rfl | rfl, -⟩ <;> simp
  obtain rfl := eq_of_sign_cons hs hkeptne hpre hlength hsplit.symm
  rw [List.getLast?_append_of_ne_nil sign hne] at hkept
  exact ⟨sign, run, rfl, hsign', hne, hrun, hkept⟩

end Numeral

/-! ## Rules of one clause -/

namespace Tree

/-- A text without tokens is no rule. -/
theorem compile_of_scan_nil {rule : String} (h : Token.scan rule.toList = [])
    (policy : ParenPolicy) : (compile policy rule).result = .error (.noTokens rule) := by
  simp only [compile, Outcome.result_bind, Outcome.result_ofExcept, Token.tokenize, h, Except.bind]

/-- A rule with one condition for its only token is that condition. -/
theorem compile_of_scan_singleton {rule text : String}
    (h : Token.scan rule.toList = [.condition text]) (policy : ParenPolicy) :
    (compile policy rule).result = .ok (.leaf text) := by
  refine compile_eq_ok_iff.mpr ⟨by simp [h], [.condition text], ?_, rfl⟩
  rw [h]
  cases policy <;> rfl

end Tree

namespace Scalar

variable {sign run : List Char}

/-- What is kept of a number that is cut behind the letter of its exponent is a text. -/
theorem ofLiteral_kept (hsign : sign = [] ∨ sign = ['-']) (hne : run ≠ [])
    (hrun : ∀ c ∈ run, Clause.isBareChar c = true)
    (hlast : run.getLast? = some 'e' ∨ run.getLast? = some 'E') :
    ofLiteral (sign ++ run) = .text (String.ofList (sign ++ run)) := by
  have htrim := (Clause.IsLiteral.bare hsign hne hrun).trimBlank_eq_self
  rw [← List.getLast?_append_of_ne_nil sign hne] at hlast
  have hbare : ∀ inner, ¬ InQuotes (trimBlank (sign ++ run)) inner := by
    rw [htrim]
    rintro inner ⟨q, hq, hcs⟩
    rw [hcs, ← List.cons_append, List.getLast?_concat] at hlast
    rcases hq with rfl | rfl
    · exact absurd hlast (by decide)
    · exact absurd hlast (by decide)
  have hnone : ¬ ∃ n, Numeral.Free (trimBlank (sign ++ run)) n := by
    rw [htrim]
    rintro ⟨n, hfree⟩
    obtain ⟨he, hE⟩ := hfree.getLast?_ne
    exact hlast.elim he hE
  rw [ofLiteral_of_not_free hbare hnone, htrim]

end Scalar

/-- The rule that compares an attribute with a literal, which stands there as it is given. -/
def comparison (attr gap : List Char) (o : Comparator) (gap' literal : List Char) : String :=
  String.ofList (Clause.spelling ⟨attr, gap, o, gap', literal⟩)

section

variable {attr gap gap' : List Char} (o : Comparator) (hne : attr ≠ [])
  (hattr : ∀ c ∈ attr, isWordChar c) (hword : Connective.ofWord? (String.ofList attr) = none)
  (hgap : ∀ c ∈ gap, isBlank c) (hgap' : ∀ c ∈ gap', isBlank c) (policy : ParenPolicy)

include hne hattr hword hgap hgap'

/-- A comparison with a literal, and with something behind it that is no token, compiles to the
comparison with that literal. -/
theorem compile_comparison_append {literal dropped : List Char}
    (hliteral : Clause.IsLiteral literal)
    (hstops : Stops Clause.isBareChar dropped) (hscan : Token.scan dropped = []) :
    (Tree.compile policy (comparison attr gap o gap' (literal ++ dropped))).result =
        .ok (.leaf (comparison attr gap o gap' literal)) ∧
      Condition.parse (comparison attr gap o gap' literal) =
        .ok ⟨String.ofList attr, o, Scalar.ofLiteral literal⟩ := by
  have hwf : Clause.WellFormed ⟨attr, gap, o, gap', literal⟩ :=
    ⟨hne, hattr, hgap, hgap', hliteral⟩
  constructor
  · refine Tree.compile_of_scan_singleton ?_ policy
    have htext : Clause.spelling ⟨attr, gap, o, gap', literal ++ dropped⟩ =
        Clause.spelling ⟨attr, gap, o, gap', literal⟩ ++ dropped := by
      simp [Clause.spelling]
    rw [comparison, String.toList_ofList, htext, Token.scan_clause_append hwf hword hstops, hscan]
    rfl
  · refine Condition.parse_eq_ok_iff.mpr (Condition.parse?_eq_some_iff.mpr
      ⟨[], _, [], ?_, List.forall_mem_nil _, List.forall_mem_nil _, hwf, rfl⟩)
    rw [comparison, String.toList_ofList, List.append_nil, List.nil_append]

/-- A comparison with a number that has a plus sign in front has no tokens. -/
theorem compile_comparison_plus {d : List Char}
    (hd : ∀ c ∈ d, Numeral.isSignedChar c = true) (hplus : d.head? = some '+') :
    (Tree.compile policy (comparison attr gap o gap' d)).result =
      .error (.noTokens (comparison attr gap o gap' d)) := by
  obtain ⟨cs, rfl⟩ := List.head?_eq_some_iff.mp hplus
  refine Tree.compile_of_scan_nil ?_ policy
  have hrest : Stops isWordChar (gap ++ o.symbol :: (gap' ++ '+' :: cs)) := by
    cases gap with
    | nil => exact stops_cons.mpr o.isWordChar_symbol
    | cons c gap => exact stops_cons.mpr (isWordChar_of_isBlank (hgap c List.mem_cons_self))
  have hliteral : Clause.readLiteral ('+' :: cs) = none := by
    have hbare : Clause.isBareChar '+' = false := by decide
    rw [Clause.readLiteral, if_neg (by decide), if_neg (by decide), Clause.readBare,
      List.takeWhile_cons, hbare]
    rfl
  have hread : Clause.read? (attr ++ (gap ++ o.symbol :: (gap' ++ '+' :: cs))) = none := by
    rw [Clause.read?_append hne hattr hgap o hgap' (stops_cons.mpr (by decide)), hliteral]
    rfl
  have htext : Clause.spelling ⟨attr, gap, o, gap', '+' :: cs⟩ =
      attr ++ (gap ++ o.symbol :: (gap' ++ '+' :: cs)) := by
    simp [Clause.spelling]
  rw [comparison, String.toList_ofList, htext, Token.scan_word_append hne hattr hword hrest hread,
    Token.scan_blanks_append hgap, Token.scan_symbol_cons, Token.scan_blanks_append hgap',
    Token.scan_of_isSignedChar hd]

end

/-- **What becomes of a number in a rule.**  Let an attribute be compared with a literal that stands
for a number.  If a plus sign stands in front of the number, the rule is refused, as it has no
tokens.  If the exponent of the number has no sign, the rule compiles to the comparison of the
attribute with that number.  Otherwise the rule is misread: it compiles to the comparison with a
text, which is the number up to the sign of its exponent. -/
theorem number_in_rule {attr gap gap' d : List Char} {x : Binary64} (o : Comparator)
    (hne : attr ≠ []) (hattr : ∀ c ∈ attr, isWordChar c) (hand : String.ofList attr ≠ "AND")
    (hor : String.ofList attr ≠ "OR") (hgap : ∀ c ∈ gap, isBlank c) (hgap' : ∀ c ∈ gap', isBlank c)
    (htrim : trimBlank d = d) (hx : Scalar.ofLiteral d = .number x) (policy : ParenPolicy) :
    (d.head? = some '+' → (Tree.compile policy (comparison attr gap o gap' d)).result =
      .error (.noTokens (comparison attr gap o gap' d))) ∧
    (d.head? ≠ some '+' → (¬ ∃ kept dropped, SignedExponent d kept dropped) →
      (Tree.compile policy (comparison attr gap o gap' d)).result =
          .ok (.leaf (comparison attr gap o gap' d)) ∧
        Condition.parse (comparison attr gap o gap' d) =
          .ok ⟨String.ofList attr, o, .number x⟩) ∧
    (d.head? ≠ some '+' → ∀ kept dropped, SignedExponent d kept dropped →
      (Tree.compile policy (comparison attr gap o gap' d)).result =
          .ok (.leaf (comparison attr gap o gap' kept)) ∧
        Condition.parse (comparison attr gap o gap' kept) =
          .ok ⟨String.ofList attr, o, .text (String.ofList kept)⟩) := by
  have hword : Connective.ofWord? (String.ofList attr) = none :=
    Condition.ofWord?_eq_none_iff.mpr ⟨hand, hor⟩
  obtain ⟨n, hfree⟩ := Scalar.free_of_ofLiteral_eq_number htrim hx
  refine ⟨compile_comparison_plus o hne hattr hword hgap hgap' policy hfree.isSignedChar, ?_, ?_⟩
  · intro hplus hnone
    have h := compile_comparison_append o hne hattr hword hgap hgap' policy
      (hfree.isLiteral hplus hnone) (stops_nil _) Token.scan_nil
    rwa [List.append_nil, hx] at h
  · intro hplus kept dropped hcut
    obtain ⟨sign, run, rfl, hsign, hrunne, hrun, hlast⟩ := hfree.exists_kept hplus hcut
    obtain ⟨rfl, -, hdropped⟩ := hcut
    obtain ⟨s, after, rfl, hs⟩ := exists_sign_cons hdropped
    -- nothing that is dropped is a token
    have hscan : Token.scan (s :: after) = [] :=
      Token.scan_of_isSignedChar fun c hc => hfree.isSignedChar c (List.mem_append_right _ hc)
    have h := compile_comparison_append o hne hattr hword hgap hgap' policy
      (.bare hsign hrunne hrun) (stops_cons.mpr hs) hscan
    rwa [Scalar.ofLiteral_kept hsign hrunne hrun hlast] at h

/-- The three cases: a plus sign in front, no sign on the exponent, and a sign on it. -/
theorem number_in_rule_scientific :
    (Tree.compile .reject "a > +1").result = .error (.noTokens "a > +1") ∧
      ((Tree.compile .drain "a>-1.5e3").result = .ok (.leaf "a>-1.5e3") ∧
        Condition.parse "a>-1.5e3" = .ok ⟨"a", .greater, .number ⟨0xC097700000000000⟩⟩) ∧
      (Tree.compile .reject "a > 1e-5").result = .ok (.leaf "a > 1e") ∧
        Condition.parse "a > 1e" = .ok ⟨"a", .greater, .text "1e"⟩ := by
  have hattr : ∀ c ∈ ['a'], isWordChar c = true := List.forall_mem_singleton.mpr (by decide)
  have hblank : ∀ c ∈ [' '], isBlank c = true := List.forall_mem_singleton.mpr (by decide)
  have hnone : ∀ c ∈ ([] : List Char), isBlank c = true := List.forall_mem_nil _
  refine ⟨?_, ?_, ?_⟩
  · exact (number_in_rule (x := ⟨0x3FF0000000000000⟩) .greater (by decide) hattr (by decide)
      (by decide) hblank hblank (by decide) (by decide +kernel) .reject).1 rfl
  · refine (number_in_rule (x := ⟨0xC097700000000000⟩) .greater (by decide) hattr (by decide)
      (by decide) hnone hnone (by decide) (by decide +kernel) .drain).2.1 (by decide) ?_
    rintro ⟨kept, dropped, h, hkept, hdropped⟩
    cases kept with
    | nil => simp at hkept
    | cons c kept =>
      -- no character but the first is a sign
      have hmem : ∀ s, dropped.head? = some s → s ∈ ['1', '.', '5', 'e', '3'] := by
        intro s hs
        rw [(List.cons.inj h).2]
        exact List.mem_append_right _ (List.mem_of_mem_head? hs)
      rcases hdropped with hs | hs
      · exact absurd (hmem _ hs) (by decide)
      · exact absurd (hmem _ hs) (by decide)
  · exact (number_in_rule (x := ⟨0x3EE4F8B588E368F1⟩) .greater (by decide) hattr (by decide)
      (by decide) hblank hblank (by decide) (by decide +kernel) .reject).2.2 (by decide)
        ['1', 'e'] ['-', '5'] ⟨rfl, by decide, by decide⟩

/-- **A number is misread.**  The literal `1e-5` stands for a number, but under either policy the
rule `a > 1e-5` compiles to the comparison of `a` with the text `1e`. -/
theorem number_cut_at_exponent :
    Scalar.ofLiteral "1e-5".toList = .number ⟨0x3EE4F8B588E368F1⟩ ∧
      (∀ policy, (Tree.compile policy "a > 1e-5").result = .ok (.leaf "a > 1e")) ∧
        Condition.parse "a > 1e" = .ok ⟨"a", .greater, .text "1e"⟩ := by
  refine ⟨by decide +kernel, ?_, by decide +kernel⟩
  intro policy
  cases policy <;> decide +kernel

end Rulebook
