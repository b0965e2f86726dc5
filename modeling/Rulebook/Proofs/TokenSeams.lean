import Rulebook.Proofs.TokenScan

/-! # Where a text may be cut

A text consists of its tokens and of the characters between them, which the scanner passes over
(`Token.Splits`, `Token.exists_splits_scan`).  If no quote is passed over, a parenthesis behind the
text is a token of its own, and the tokens in front of it are those of the text alone
(`Token.scan_append_closeParen`).  For a word, a run of blanks and a bare literal end at the
parenthesis as they do at the end of the text.  Only a literal in quotes would go on beyond it, and
where such a literal is open its quote is passed over (`Clause.read?_append_closeParen`,
`Token.quotesIn_scan_lt`).
-/
namespace Rulebook

/-! ## Runs in front of a text -/

section

variable {p : Char → Bool} {d : Char} (hd : p d = false) (cs rest : List Char)

include hd

theorem takeWhile_append_cons : (cs ++ d :: rest).takeWhile p = cs.takeWhile p := by
  induction cs with
  | nil => simp [hd]
  | cons c cs ih => simp only [List.cons_append, List.takeWhile_cons, ih]

theorem dropWhile_append_cons : (cs ++ d :: rest).dropWhile p = cs.dropWhile p ++ d :: rest := by
  induction cs with
  | nil => simp [hd]
  | cons c cs ih =>
    simp only [List.cons_append, List.dropWhile_cons, ih]
    split <;> rfl

end

/-- Whether a character opens and closes literals in quotes. -/
def isQuote (c : Char) : Bool := c = '\'' || c = '"'

namespace Clause

/-! ## Clauses with a parenthesis behind them -/

variable {cs rest : List Char} {clause : Clause}

/-- The text goes on, behind the word of a clause, as far as the opening quote of a literal. -/
def OpensQuote (cs : List Char) : Prop :=
  ∃ (gap : List Char) (o : Comparator) (gap' : List Char) (q : Char) (body : List Char),
    cs = gap ++ o.symbol :: (gap' ++ q :: body) ∧ (∀ c ∈ gap, isBlank c) ∧
      (∀ c ∈ gap', isBlank c) ∧ isQuote q

theorem readQuoted_append_closeParen {q : Char} {literal : List Char}
    (h : readQuoted q cs = some (literal, rest)) (more : List Char) :
    readQuoted q (cs ++ ')' :: more) = some (literal, rest ++ ')' :: more) := by
  obtain ⟨body, hbody, rfl⟩ := exists_body_of_readQuoted h
  obtain rfl : cs = body ++ q :: rest := by simpa using (readQuoted_append h).symm
  simpa using readQuoted_append_quote hbody (rest ++ ')' :: more)

theorem readBare_append_closeParen (sign cs more : List Char) :
    readBare sign (cs ++ ')' :: more) =
      (readBare sign cs).map fun r => (r.1, r.2 ++ ')' :: more) := by
  have hd : isBareChar ')' = false := by decide
  rw [readBare, readBare, takeWhile_append_cons hd, dropWhile_append_cons hd]
  split <;> rfl

/-- A literal is read as before with a parenthesis behind it, or it has an opening quote only. -/
theorem readLiteral_append_closeParen (cs more : List Char) :
    readLiteral (cs ++ ')' :: more) = (readLiteral cs).map (fun r => (r.1, r.2 ++ ')' :: more)) ∨
      ∃ q body, cs = q :: body ∧ isQuote q ∧ readLiteral cs = none := by
  cases cs with
  | nil => exact .inl rfl
  | cons c cs =>
    rw [List.cons_append, readLiteral, readLiteral]
    by_cases hq : c = '\'' ∨ c = '"'
    · rw [if_pos hq, if_pos hq]
      cases hread : readQuoted c cs with
      | none => exact .inr ⟨c, cs, rfl, by simpa [isQuote] using hq, rfl⟩
      | some r => exact .inl (readQuoted_append_closeParen hread more)
    · rw [if_neg hq, if_neg hq]
      split
      · exact .inl (readBare_append_closeParen ['-'] cs more)
      · exact .inl (readBare_append_closeParen [] (c :: cs) more)

theorem readComparison_append_closeParen (attr gap cs more : List Char) :
    readComparison attr gap (cs ++ ')' :: more) =
        (readComparison attr gap cs).map (fun r => (r.1, r.2 ++ ')' :: more)) ∨
      readComparison attr gap cs = none ∧ ∃ (o : Comparator) (gap' : List Char) (q : Char)
        (body : List Char), cs = o.symbol :: (gap' ++ q :: body) ∧ (∀ c ∈ gap', isBlank c) ∧
          isQuote q := by
  cases cs with
  | nil => exact .inl rfl
  | cons c cs =>
    have hd : isBlank ')' = false := by decide
    rw [List.cons_append, readComparison, readComparison]
    cases ho : Comparator.ofSymbol? c with
    | none => exact .inl rfl
    | some o =>
      rw [takeWhile_append_cons hd, dropWhile_append_cons hd]
      rcases readLiteral_append_closeParen (cs.dropWhile isBlank) more with
        heq | ⟨q, body, hcs, hq, hnone⟩
      · refine .inl ?_
        simp only [Option.bind_eq_bind, Option.bind_some, heq]
        cases readLiteral (cs.dropWhile isBlank) <;> rfl
      · refine .inr ⟨by simp only [Option.bind_eq_bind, Option.bind_some, hnone]; rfl,
          o, cs.takeWhile isBlank, q, body, ?_, fun c hc => List.mem_takeWhile_imp hc, hq⟩
        rw [← hcs, List.takeWhile_append_dropWhile, ← Comparator.ofSymbol?_eq_some_iff.mp ho]

/-- **A clause is read as before with a parenthesis behind it**, or there is none and its literal
has an opening quote only. -/
theorem read?_append_closeParen (cs more : List Char) :
    read? (cs ++ ')' :: more) = (read? cs).map (fun r => (r.1, r.2 ++ ')' :: more)) ∨
      read? cs = none ∧ OpensQuote (cs.dropWhile isWordChar) := by
  have hword : isWordChar ')' = false := by decide
  have hblank : isBlank ')' = false := by decide
  simp only [read?, takeWhile_append_cons hword, dropWhile_append_cons hword,
    takeWhile_append_cons hblank, dropWhile_append_cons hblank]
  by_cases hattr : cs.takeWhile isWordChar = []
  · rw [if_pos hattr, if_pos hattr]
    exact .inl rfl
  · rw [if_neg hattr, if_neg hattr]
    rcases readComparison_append_closeParen (cs.takeWhile isWordChar)
      ((cs.dropWhile isWordChar).takeWhile isBlank) ((cs.dropWhile isWordChar).dropWhile isBlank)
      more with heq | ⟨hnone, o, gap', q, body, hcs, hgap', hq⟩
    · exact .inl heq
    · refine .inr ⟨hnone, (cs.dropWhile isWordChar).takeWhile isBlank, o, gap', q, body, ?_,
        fun c hc => List.mem_takeWhile_imp hc, hgap', hq⟩
      rw [← hcs, List.takeWhile_append_dropWhile]

end Clause

namespace Token

/-! ## Tokens and what is between them -/

/-- How a token is written. -/
def spelling : Token → List Char
  | .openParen => ['(']
  | .closeParen => [')']
  | .connective c => c.word.toList
  | .condition text => text.toList

theorem spelling_condition (cs : List Char) : spelling (.condition (String.ofList cs)) = cs :=
  String.toList_ofList

/-- The text consists of the tokens, one behind the other, and of the characters between them. -/
inductive Splits : List Char → List Token → List Char → Prop
  | nil : Splits [] [] []
  | skip (c : Char) {cs between : List Char} {ts : List Token} (h : Splits cs ts between) :
    Splits (c :: cs) ts (c :: between)
  | token (t : Token) {cs between : List Char} {ts : List Token} (h : Splits cs ts between) :
    Splits (t.spelling ++ cs) (t :: ts) between

theorem Splits.skip_append (run : List Char) {cs between : List Char} {ts : List Token}
    (h : Splits cs ts between) : Splits (run ++ cs) ts (run ++ between) := by
  induction run with
  | nil => exact h
  | cons c run ih => exact .skip c ih

/-- A word and what is behind it. -/
theorem word_append_dropWhile {c : Char} (hc : isWordChar c = true) (cs : List Char) :
    (c :: cs).takeWhile isWordChar ++ cs.dropWhile isWordChar = c :: cs := by
  rw [← List.dropWhile_cons_of_pos hc, List.takeWhile_append_dropWhile]

/-- A word that is a connective is the word of that connective. -/
theorem eq_word_of_ofWord? {cs : List Char} {k : Connective}
    (h : Connective.ofWord? (String.ofList cs) = some k) : cs = k.word.toList := by
  rw [← Connective.ofWord?_eq_some_iff.mp h, String.toList_ofList]

/-- **The tokens of a text stand in it one behind the other.** -/
theorem exists_splits_scan (cs : List Char) : ∃ between, Splits cs (scan cs) between := by
  fun_induction scan cs with
  | case1 => exact ⟨[], .nil⟩
  | case2 tail ih =>
    obtain ⟨between, h⟩ := ih
    exact ⟨between, .token .openParen h⟩
  | case3 tail _ ih =>
    obtain ⟨between, h⟩ := ih
    exact ⟨between, .token .closeParen h⟩
  | case4 c tail _ _ hc k hk ih =>
    obtain ⟨between, h⟩ := ih
    have hs := h.token (.connective k)
    rw [spelling, ← eq_word_of_ofWord? hk, word_append_dropWhile hc] at hs
    exact ⟨between, hs⟩
  | case5 c tail _ _ _ hword clause rest hread _ ih =>
    obtain ⟨between, h⟩ := ih
    have hs := h.token (.condition (String.ofList clause.spelling))
    rw [spelling_condition, Clause.spelling_append hread] at hs
    exact ⟨between, hs⟩
  | case6 c tail _ _ hc hk hread ih =>
    obtain ⟨between, h⟩ := ih
    have hs := h.skip_append ((c :: tail).takeWhile isWordChar)
    rw [word_append_dropWhile hc] at hs
    exact ⟨_, hs⟩
  | case7 c tail _ _ hc ih =>
    obtain ⟨between, h⟩ := ih
    exact ⟨c :: between, .skip c h⟩

/-- How many quotes stand in a text. -/
def quotes (cs : List Char) : Nat := cs.countP isQuote

/-- How many quotes stand in tokens. -/
def quotesIn (ts : List Token) : Nat := quotes (ts.flatMap spelling)

theorem quotes_append (cs ds : List Char) : quotes (cs ++ ds) = quotes cs + quotes ds :=
  List.countP_append

theorem quotesIn_cons (t : Token) (ts : List Token) :
    quotesIn (t :: ts) = quotes t.spelling + quotesIn ts := by
  rw [quotesIn, List.flatMap_cons, quotes_append, quotesIn]

theorem quotes_eq_zero_iff {cs : List Char} : quotes cs = 0 ↔ ∀ c ∈ cs, isQuote c = false := by
  simp [quotes, List.countP_eq_zero]

/-- The quotes of a text are those of its tokens and those between them. -/
theorem Splits.quotes_eq {cs between : List Char} {ts : List Token} (h : Splits cs ts between) :
    quotes cs = quotesIn ts + quotes between := by
  induction h with
  | nil => rfl
  | @skip c cs between ts _ ih =>
    rw [← List.singleton_append, quotes_append, ← List.singleton_append (l := between),
      quotes_append, ih]
    omega
  | token t _ ih => rw [quotes_append, quotesIn_cons, ih, Nat.add_assoc]

/-- Every quote of the text is part of a token. -/
def QuotesInside (cs : List Char) : Prop :=
  ∃ between, Splits cs (scan cs) between ∧ ∀ c ∈ between, isQuote c = false

theorem quotesInside_iff {cs : List Char} : QuotesInside cs ↔ quotes cs ≤ quotesIn (scan cs) := by
  constructor
  · rintro ⟨between, h, hnone⟩
    rw [h.quotes_eq, quotes_eq_zero_iff.mpr hnone]
    exact Nat.le_refl _
  · intro hle
    obtain ⟨between, h⟩ := exists_splits_scan cs
    have heq := h.quotes_eq
    exact ⟨between, h, quotes_eq_zero_iff.mp (by omega)⟩

/-- The tokens hold no more quotes than the text. -/
theorem quotesIn_scan_le (cs : List Char) : quotesIn (scan cs) ≤ quotes cs := by
  obtain ⟨between, h⟩ := exists_splits_scan cs
  have heq := h.quotes_eq
  omega

/-- A quote outside the conditions is passed over. -/
theorem scan_cons_quote {q : Char} (hq : isQuote q = true) (cs : List Char) :
    scan (q :: cs) = scan cs := by
  obtain rfl | rfl : q = '\'' ∨ q = '"' := by simpa [isQuote] using hq
  all_goals exact scan_cons_of_skipped (by decide) (by decide) (by decide) cs

/-- What opens a quote behind a word, without completing a clause, leaves the quote between the
tokens. -/
theorem quotesIn_scan_lt {cs : List Char} (h : Clause.OpensQuote cs) :
    quotesIn (scan cs) < quotes cs := by
  obtain ⟨gap, o, gap', q, body, rfl, hgap, hgap', hq⟩ := h
  have ho : o.symbol ≠ '(' ∧ o.symbol ≠ ')' := by cases o <;> decide
  have hle := quotesIn_scan_le body
  have hq1 : quotes (q :: body) = quotes body + 1 := List.countP_cons_of_pos hq
  rw [scan_blanks_append hgap, scan_cons_of_skipped ho.1 ho.2 o.isWordChar_symbol,
    scan_blanks_append hgap', scan_cons_quote hq, ← List.singleton_append, quotes_append,
    quotes_append, quotes_append, hq1]
  omega

/-- **A parenthesis behind a text is a token of its own**, if no quote of the text is left open. -/
theorem scan_append_closeParen {cs : List Char} (h : QuotesInside cs) (rest : List Char) :
    scan (cs ++ ')' :: rest) = scan cs ++ .closeParen :: scan rest := by
  have hclose : isWordChar ')' = false := by decide
  rw [quotesInside_iff] at h
  fun_induction scan cs with
  | case1 => exact scan_closeParen rest
  | case2 tail ih =>
    rw [quotesIn_cons, spelling, ← List.singleton_append, quotes_append] at h
    rw [List.cons_append, scan_openParen, ih (by omega), List.cons_append]
  | case3 tail _ ih =>
    rw [quotesIn_cons, spelling, ← List.singleton_append, quotes_append] at h
    rw [List.cons_append, scan_closeParen, ih (by omega), List.cons_append]
  | case4 c tail _ _ hc k hk ih =>
    have hcount : quotes (c :: tail) =
        quotes k.word.toList + quotes (tail.dropWhile isWordChar) := by
      rw [← eq_word_of_ofWord? hk, ← quotes_append, word_append_dropWhile hc]
    rw [quotesIn_cons, spelling, hcount] at h
    rw [List.cons_append, scan_word hc, ← List.cons_append, takeWhile_append_cons hclose, hk,
      dropWhile_append_cons hclose]
    simp only
    rw [ih (by omega), List.cons_append]
  | case5 c tail _ _ hc hword clause rest' hread _ ih =>
    rw [quotesIn_cons, spelling_condition, ← Clause.spelling_append hread,
      quotes_append] at h
    rw [List.cons_append, scan_word hc, ← List.cons_append, takeWhile_append_cons hclose, hword]
    rcases Clause.read?_append_closeParen (c :: tail) rest with heq | ⟨hnone, -⟩
    · rw [heq, hread]
      simp only [Option.map_some]
      rw [ih (by omega), List.cons_append]
    · rw [hread] at hnone
      cases hnone
  | case6 c tail _ _ hc hk hread ih =>
    rw [← word_append_dropWhile hc, quotes_append] at h
    rw [List.cons_append, scan_word hc, ← List.cons_append, takeWhile_append_cons hclose, hk]
    rcases Clause.read?_append_closeParen (c :: tail) rest with heq | ⟨-, hopens⟩
    · rw [heq, hread, dropWhile_append_cons hclose]
      simp only [Option.map_none]
      exact ih (by omega)
    · rw [List.dropWhile_cons_of_pos hc] at hopens
      have hlt := quotesIn_scan_lt hopens
      omega
  | case7 c tail ho hcl hc ih =>
    rw [← List.singleton_append, quotes_append] at h
    rw [List.cons_append, scan_cons_of_skipped ho hcl (by simpa using hc)]
    exact ih (by omega)

end Token

end Rulebook
