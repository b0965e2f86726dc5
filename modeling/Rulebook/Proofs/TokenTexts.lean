import Rulebook.Proofs.DisplayRoundTrip
import Rulebook.Proofs.TokenSeams

/-! # Tokens as texts

What is found in a rule as a token is found again where it is written by itself: the scanner reads
it off any text that it begins, if what follows cannot prolong a literal
(`Token.scan_spelling_append`).  A blank cannot, so tokens that are written with single blanks
between them, in whatever order they come, are the tokens of that text (`Token.scan_written`).  Such
a text is the normal form of all rules with these tokens (`Token.written_is_normal_form`).

A text that is a single token is a condition by itself, with blanks around it, and the scanner and
the reader of conditions accept the same texts as such (`Token.single_condition_iff_parse`).
-/
namespace Rulebook

/-- What stops a literal without quotes stops a word. -/
theorem stops_isWordChar_of_isBareChar {cs : List Char} (h : Stops Clause.isBareChar cs) :
    Stops isWordChar cs :=
  fun c hc => (Bool.or_eq_false_iff.mp (h c hc)).1

namespace Token

/-! ## Normal forms -/

/-- Tokens as a text, with single blanks between them. -/
def written (ts : List Token) : String := " ".intercalate (ts.map fun t => String.ofList t.spelling)

/-- The normal form of a rule, which keeps of it the tokens only. -/
def normalize (rule : String) : Except RuleError String := (tokenize rule).map written

theorem toList_written_singleton (t : Token) : (written [t]).toList = t.spelling := by
  simp [written]

theorem toList_written_cons_cons (t u : Token) (ts : List Token) :
    (written (t :: u :: ts)).toList = t.spelling ++ ' ' :: (written (u :: ts)).toList := by
  simp [written]

/-- **What was found once as a token is found again** wherever it is written, if what follows
cannot prolong a literal. -/
theorem scan_spelling_append {t : Token} {cs rest : List Char} (ht : t ∈ scan cs)
    (hr : Stops Clause.isBareChar rest) : scan (t.spelling ++ rest) = t :: scan rest := by
  cases t with
  | openParen => exact scan_openParen rest
  | closeParen => exact scan_closeParen rest
  | connective k =>
    exact scan_connective_append k (stops_isWordChar_of_isBareChar hr)
  | condition text =>
    obtain ⟨clause, hwf, hattr, rfl⟩ := exists_clause_of_mem_scan ht
    rw [spelling_condition]
    exact scan_clause_append hwf hattr hr

/-- The tokens of a text that consists of tokens with single blanks between them. -/
theorem scan_written {ts : List Token} (h : ∀ t ∈ ts, ∃ cs, t ∈ scan cs) :
    scan (written ts).toList = ts := by
  induction ts with
  | nil => exact scan_nil
  | cons t ts ih =>
    obtain ⟨⟨cs, ht⟩, hrest⟩ := List.forall_mem_cons.mp h
    cases ts with
    | nil =>
      have hs := scan_spelling_append ht (stops_nil Clause.isBareChar)
      rw [List.append_nil, scan_nil] at hs
      rw [toList_written_singleton, hs]
    | cons u ts =>
      have hblank : ∀ c ∈ [' '], isBlank c := List.all_eq_true.mp (by decide)
      have hskip : scan (' ' :: (written (u :: ts)).toList) = u :: ts := by
        rw [← List.singleton_append, scan_blanks_append hblank, ih hrest]
      rw [toList_written_cons_cons, scan_spelling_append ht (stops_cons.mpr (by decide)), hskip]

theorem tokenize_written {rule : String} {ts : List Token} (h : tokenize rule = .ok ts) :
    tokenize (written ts) = .ok ts := by
  obtain ⟨rfl, hne⟩ := tokenize_eq_ok_iff.mp h
  exact tokenize_eq_ok_iff.mpr ⟨scan_written fun t ht => ⟨_, ht⟩, hne⟩

/-- **Tokens have a normal form as a text.**  Whatever the tokens of a rule are, written with single
blanks between them they are the tokens of that text.  So under either policy the text compiles as
the rule does, to the same tree or the same error and with the same reports, and its normal form is
the text itself. -/
theorem written_is_normal_form {rule : String} {ts : List Token} (h : tokenize rule = .ok ts) :
    tokenize (written ts) = .ok ts ∧
      (∀ policy, Tree.compile policy (written ts) = Tree.compile policy rule) ∧
        normalize rule = .ok (written ts) ∧ normalize (written ts) = .ok (written ts) := by
  have hwritten := tokenize_written h
  refine ⟨hwritten, ?_, ?_, ?_⟩
  · intro policy
    rw [Tree.compile, Tree.compile, hwritten, h]
  · rw [normalize, h]
    rfl
  · rw [normalize, hwritten]
    rfl

/-- Conditions side by side, a keyword in quotes, a parenthesis that is never closed and a word that
is no token. -/
theorem written_is_normal_form_garbled :
    tokenize "if a>1b b = 'x) AND'AND(OR c<2" =
        .ok [.condition "a>1b", .condition "b = 'x) AND'", .connective .and, .openParen,
          .connective .or, .condition "c<2"] ∧
      normalize "if a>1b b = 'x) AND'AND(OR c<2" = .ok "a>1b b = 'x) AND' AND ( OR c<2" ∧
      normalize "a>1b b = 'x) AND' AND ( OR c<2" = .ok "a>1b b = 'x) AND' AND ( OR c<2" := by
  have h : tokenize "if a>1b b = 'x) AND'AND(OR c<2" =
      .ok [.condition "a>1b", .condition "b = 'x) AND'", .connective .and, .openParen,
        .connective .or, .condition "c<2"] := by cbv
  have hw : written [.condition "a>1b", .condition "b = 'x) AND'", .connective .and, .openParen,
      .connective .or, .condition "c<2"] = "a>1b b = 'x) AND' AND ( OR c<2" := by
    decide +kernel
  obtain ⟨-, -, hrule, hwritten⟩ := written_is_normal_form h
  rw [hw] at hrule hwritten
  exact ⟨h, hrule, hwritten⟩

/-! ## Single conditions -/

/-- The blanks around a text do not change what condition it says. -/
theorem parse?_trimmed (s : String) : Condition.parse? (trimmed s) = Condition.parse? s := by
  refine Option.ext fun c => ?_
  rw [Condition.parse?_eq_some_iff, Condition.parse?_eq_some_iff, trimmed, String.toList_ofList]
  constructor
  · rintro ⟨before, clause, after, hs, hb, ha, hwf, hc⟩
    obtain ⟨front, back, hcs, hfront, hback⟩ := padded_trimBlank s.toList
    refine ⟨front ++ before, clause, after ++ back, ?_, List.forall_mem_append.mpr ⟨hfront, hb⟩,
      List.forall_mem_append.mpr ⟨ha, hback⟩, hwf, hc⟩
    rw [hcs, hs]
    simp
  · rintro ⟨before, clause, after, hs, hb, ha, hwf, hc⟩
    refine ⟨[], clause, [], ?_, List.forall_mem_nil _, List.forall_mem_nil _, hwf, hc⟩
    rw [hs, hwf.trimBlank_append hb ha, List.append_nil, List.nil_append]

/-- **The scanner and the reader of conditions have one language.**  A text is found in itself as a
single condition, without the blanks around it, exactly if it can be read as a condition on an
attribute that is no connective.  And with these blanks or without them, it says the same
condition. -/
theorem single_condition_iff_parse (s : String) :
    (tokenize s = .ok [.condition (trimmed s)] ↔
      ∃ c, Condition.parse s = .ok c ∧ c.attr ≠ "AND" ∧ c.attr ≠ "OR") ∧
    ∀ c, Condition.parse (trimmed s) = .ok c ↔ Condition.parse s = .ok c := by
  refine ⟨⟨?_, ?_⟩, ?_⟩
  · intro h
    obtain ⟨hs, -⟩ := tokenize_eq_ok_iff.mp h
    have hmem : .condition (trimmed s) ∈ scan s.toList := by
      rw [hs]
      exact List.mem_singleton_self _
    -- what is found can be read, and the blanks around it do not matter
    obtain ⟨⟨c, hc, hattr⟩, -⟩ := Condition.readable_of_mem_scan hmem
    rw [Condition.parse_eq_ok_iff, parse?_trimmed] at hc
    exact ⟨c, Condition.parse_eq_ok_iff.mpr hc, hattr⟩
  · intro h
    have hscan := Tree.scan_readable_append h (stops_nil Clause.isBareChar)
    rw [List.append_nil, scan_nil] at hscan
    exact tokenize_eq_ok_iff.mpr ⟨hscan, List.cons_ne_nil _ _⟩
  · intro c
    rw [Condition.parse_eq_ok_iff, Condition.parse_eq_ok_iff, parse?_trimmed]

end Token

end Rulebook
