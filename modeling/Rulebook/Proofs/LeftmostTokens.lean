import Rulebook.Proofs.Compilation
import Rulebook.Proofs.TokenLayout

/-! # The leftmost tokens, and what is dropped between them

The scanner drops nothing but gaps, in which no token begins: a rule has the tokens as which it is
laid out, and it has none if it is a gap as a whole (`Token.tokenizes_leftmost`).  In particular no
parenthesis is dropped.  In a text that is laid out each one is in a token
(`Token.LaidOut.exists_paren`), and there it is the token itself or stands between the quotes of a
condition (`Token.Stands.holdsParen`).
-/
namespace Rulebook

namespace Token

variable {before gap cs after : List Char} {t : Token} {ts : List Token}

/-! ## Where parentheses stand -/

/-- The token holds the character `p` behind `l` and in front of `r`: it is a parenthesis itself, or
a condition whose literal has the character between its quotes. -/
inductive HoldsParen : Token → List Char → Char → List Char → Prop
  | openParen : HoldsParen .openParen [] '(' []
  | closeParen : HoldsParen .closeParen [] ')' []
  | quoted {clause : Clause} {q p : Char} {body body' : List Char} (h : clause.WellFormed)
    (hq : q = '\'' ∨ q = '"') (hliteral : clause.literal = q :: (body ++ p :: (body' ++ [q]))) :
    HoldsParen (.condition (String.ofList clause.spelling)) (clause.attr ++ clause.gapBefore ++
      clause.comparator.symbol :: (clause.gapAfter ++ q :: body)) p (body' ++ [q])

theorem HoldsParen.spelling_eq {l r : List Char} {p : Char} (h : HoldsParen t l p r) :
    t.spelling = l ++ p :: r := by
  cases h with
  | openParen | closeParen => rfl
  | quoted _ _ hliteral =>
    rw [spelling_condition, Clause.spelling, hliteral]
    simp

theorem isBareChar_of_paren {p : Char} (hp : p = '(' ∨ p = ')') : Clause.isBareChar p = false := by
  rcases hp with rfl | rfl <;> decide

/-- A parenthesis in a literal is between its quotes. -/
theorem exists_quotes_of_paren {literal l r : List Char} {p : Char} (h : Clause.IsLiteral literal)
    (hp : p = '(' ∨ p = ')') (hl : literal = l ++ p :: r) :
    ∃ q body body', (q = '\'' ∨ q = '"') ∧ l = q :: body ∧ r = body' ++ [q] := by
  have hne : ∀ c : Char, c = '\'' ∨ c = '"' ∨ c = '-' → p ≠ c := by
    rintro c (rfl | rfl | rfl) <;> rcases hp with rfl | rfl <;> decide
  cases h with
  | @quoted q body hq _ =>
    have hpq : p ∉ [q] := by
      simpa using hne q (by rcases hq with rfl | rfl <;> simp)
    rw [← List.singleton_append] at hl
    obtain ⟨body₁, rfl, hbody⟩ := exists_of_append_eq hpq hl
    rcases append_eq_append_cons hbody with ⟨body₂, -, rfl⟩ | ⟨l, -, hend⟩
    · exact ⟨q, body₁, body₂, hq, rfl, rfl⟩
    · refine absurd ?_ hpq
      rw [hend]
      exact List.mem_append_right l List.mem_cons_self
  | @bare sign run hsign hne' hrun =>
    have hmem : p ∈ sign ++ run := by rw [hl]; simp
    rcases List.mem_append.mp hmem with hsig | hmem
    · rcases hsign with rfl | rfl
      · cases hsig
      · exact absurd (List.mem_singleton.mp hsig) (hne '-' (by simp))
    · exact absurd (hrun p hmem) (by simp [isBareChar_of_paren hp])

/-- A parenthesis in a clause is in its literal. -/
theorem exists_literal_of_paren {clause : Clause} {l r : List Char} {p : Char}
    (h : clause.WellFormed) (hp : p = '(' ∨ p = ')') (ht : clause.spelling = l ++ p :: r) :
    ∃ l', l = clause.attr ++ clause.gapBefore ++
        clause.comparator.symbol :: (clause.gapAfter ++ l') ∧ clause.literal = l' ++ p :: r := by
  have hword : isWordChar p = false := by rcases hp with rfl | rfl <;> decide
  have hblank : isBlank p = false := by rcases hp with rfl | rfl <;> decide
  have hattr : p ∉ clause.attr := fun hmem => absurd (h.attr_word p hmem) (by simp [hword])
  have hgap : p ∉ clause.gapBefore :=
    fun hmem => absurd (h.gapBefore_blank p hmem) (by simp [hblank])
  have hgap' : p ∉ clause.gapAfter :=
    fun hmem => absurd (h.gapAfter_blank p hmem) (by simp [hblank])
  have hsymbol : p ∉ [clause.comparator.symbol] := by
    rcases hp with rfl | rfl <;> cases clause.comparator <;> decide
  -- it is in none of the parts in front of the literal
  rw [Clause.spelling, List.append_assoc] at ht
  obtain ⟨l₁, rfl, ht₁⟩ := exists_of_append_eq hattr ht
  obtain ⟨l₂, rfl, ht₂⟩ := exists_of_append_eq hgap ht₁
  obtain ⟨l₃, rfl, ht₃⟩ := exists_of_append_eq hsymbol ht₂
  obtain ⟨l₄, rfl, ht₄⟩ := exists_of_append_eq hgap' ht₃
  exact ⟨l₄, by simp, ht₄⟩

/-- **A parenthesis in a token is the token, or in the quotes of a condition.** -/
theorem Stands.holdsParen {l r : List Char} {p : Char} (h : Stands before after t)
    (hp : p = '(' ∨ p = ')') (ht : t.spelling = l ++ p :: r) : HoldsParen t l p r := by
  cases h with
  | openParen =>
    obtain ⟨rfl, rfl, rfl⟩ : l = [] ∧ p = '(' ∧ r = [] := by
      simpa [spelling, List.singleton_eq_append_iff] using ht
    exact .openParen
  | closeParen =>
    obtain ⟨rfl, rfl, rfl⟩ : l = [] ∧ p = ')' ∧ r = [] := by
      simpa [spelling, List.singleton_eq_append_iff] using ht
    exact .closeParen
  | @connective k _ _ =>
    have hmem : p ∈ k.word.toList := by
      rw [spelling] at ht
      simp [ht]
    obtain ⟨ho, hc⟩ := ne_paren_of_isWordChar (isWordChar_of_mem_word k p hmem)
    exact absurd hp (not_or.mpr ⟨ho, hc⟩)
  | @condition clause hwf _ _ =>
    rw [spelling_condition] at ht
    obtain ⟨l, rfl, hliteral⟩ := exists_literal_of_paren hwf hp ht
    obtain ⟨q, body, body', hq, rfl, rfl⟩ :=
      exists_quotes_of_paren hwf.literal_isLiteral hp hliteral
    exact .quoted hwf hq hliteral

/-- The text, which stands between two others, is laid out as the tokens `us`, the token `t` between
`front` and `back`, and the tokens `vs`. -/
structure LaidOutAt (before front : List Char) (t : Token) (back after : List Char)
    (us vs : List Token) : Prop where
  laidOut_front : LaidOut before front (t.spelling ++ (back ++ after)) us
  stands : Stands (before ++ front) (back ++ after) t
  laidOut_back : LaidOut (before ++ front ++ t.spelling) back after vs

/-- In front of what is laid out another token may stand. -/
theorem LaidOutAt.token {front back : List Char} {u : Token} {us vs : List Token}
    (hgap : Gap before gap (t.spelling ++ (front ++ (u.spelling ++ back) ++ after)))
    (ht : Stands (before ++ gap) (front ++ (u.spelling ++ back) ++ after) t)
    (h : LaidOutAt (before ++ gap ++ t.spelling) front u back after us vs) :
    LaidOutAt before (gap ++ (t.spelling ++ front)) u back after (t :: us) vs := by
  have hassoc :
      before ++ gap ++ t.spelling ++ front = before ++ (gap ++ (t.spelling ++ front)) := by simp
  obtain ⟨hfront, hstands, hback⟩ := h
  rw [hassoc] at hstands hback
  rw [List.append_assoc front, List.append_assoc u.spelling] at hgap ht
  exact ⟨.token hgap ht hfront, hstands, hback⟩

theorem Gap.not_mem_of_paren {p : Char} (h : Gap before gap after) (hp : p = '(' ∨ p = ')') :
    p ∉ gap := by
  rcases hp with rfl | rfl
  · exact h.no_openParen
  · exact h.no_closeParen

/-- **Every parenthesis in a text that is laid out is in a token**: it is one, or it is in the
quotes of a condition. -/
theorem LaidOut.exists_paren (h : LaidOut before cs after ts) {x y : List Char} {p : Char}
    (hp : p = '(' ∨ p = ')') (hcs : cs = x ++ p :: y) :
    ∃ us t vs front back l r, ts = us ++ t :: vs ∧ x = front ++ l ∧ y = r ++ back ∧
      HoldsParen t l p r ∧ LaidOutAt before front t back after us vs := by
  induction h generalizing x with
  | gap h =>
    refine absurd ?_ (h.not_mem_of_paren hp)
    rw [hcs]
    exact List.mem_append_right x List.mem_cons_self
  | @token before gap cs after t ts hgap ht h ih =>
    obtain ⟨x, rfl, hx⟩ := exists_of_append_eq (hgap.not_mem_of_paren hp) hcs
    rcases append_eq_append_cons hx with ⟨r, hspelling, rfl⟩ | ⟨x, rfl, rfl⟩
    · exact ⟨[], t, ts, gap, cs, x, r, rfl, rfl, rfl, ht.holdsParen hp hspelling,
        .gap hgap, ht, h⟩
    · -- the parenthesis is behind the first token
      obtain ⟨us, u, vs, front, back, l, r, rfl, rfl, rfl, hholds, hat⟩ := ih rfl
      have hcs' : front ++ l ++ p :: (r ++ back) = front ++ (u.spelling ++ back) := by
        rw [hholds.spelling_eq]
        simp
      rw [hcs'] at hgap ht
      exact ⟨t :: us, u, vs, gap ++ (t.spelling ++ front), back, l, r, rfl, by simp, rfl, hholds,
        hat.token hgap ht⟩

/-! ## The tokens of a rule -/

/-- **The tokens are the leftmost ones, and nothing is dropped but what is no token.**  A rule has
these tokens exactly if it is laid out as them, and it has none exactly if it is a gap as a whole.
So every parenthesis of a rule with tokens is one of them, or in the quotes of a condition. -/
theorem tokenizes_leftmost (rule : String) :
    (∀ ts, tokenize rule = .ok ts ↔ ts ≠ [] ∧ LaidOut [] rule.toList [] ts) ∧
      (∀ e, tokenize rule = .error e ↔ e = .noTokens rule ∧ Gap [] rule.toList []) ∧
      ∀ ts x p y, tokenize rule = .ok ts → rule.toList = x ++ p :: y → p = '(' ∨ p = ')' →
        ∃ us t vs front back l r, ts = us ++ t :: vs ∧ x = front ++ l ∧ y = r ++ back ∧
          HoldsParen t l p r ∧ LaidOutAt [] front t back [] us vs := by
  refine ⟨fun ts => ?_, fun e => ?_, fun ts x p y htokens hrule hp => ?_⟩
  · rw [tokenize_eq_ok_iff, laidOut_iff, and_comm]
  · rw [tokenize_eq_error_iff, gap_iff, and_comm]
  · obtain ⟨hscan, -⟩ := tokenize_eq_ok_iff.mp htokens
    exact (laidOut_iff.mpr hscan).exists_paren hp hrule

/-- A comparison that is cut short, a parenthesis in quotes that open no literal, and one in the
quotes of a condition. -/
theorem tokenizes_leftmost_quotes :
    LaidOut [] "if a > b > ')' AND c = '('".toList []
        [.condition "a > b", .closeParen, .connective .and, .condition "c = '('"] ∧
      Gap [] "ORDER > 'x AND_ < -".toList [] ∧
      ∃ us t vs front back l r,
        [.condition "a > b", .closeParen, .connective .and, .condition "c = '('"] = us ++ t :: vs ∧
          "if a > b > ')' AND c = '".toList = front ++ l ∧ ['\''] = r ++ back ∧
            HoldsParen t l '(' r ∧ LaidOutAt [] front t back [] us vs := by
  have h : tokenize "if a > b > ')' AND c = '('" =
      .ok [.condition "a > b", .closeParen, .connective .and, .condition "c = '('"] := by cbv
  have hnone : tokenize "ORDER > 'x AND_ < -" = .error (.noTokens "ORDER > 'x AND_ < -") := by
    rw [tokenize_eq_error_iff]
    exact ⟨by decide +kernel, rfl⟩
  obtain ⟨htokens, -, hparen⟩ := tokenizes_leftmost "if a > b > ')' AND c = '('"
  obtain ⟨-, herror, -⟩ := tokenizes_leftmost "ORDER > 'x AND_ < -"
  exact ⟨((htokens _).mp h).2, ((herror _).mp hnone).2,
    hparen _ _ '(' _ h (by rfl) (.inl rfl)⟩

end Token

end Rulebook
