import Rulebook.Proofs.ClauseGrammar

/-! # The parts of a condition

A text *splits* into an attribute, a comparing character and a literal if it consists of them, in
this order, with white space or nothing around and between them (`Condition.Splits`).  Splittings
are the well-formed clauses between blanks (`Condition.splits_iff`), and a clause is what is read
off the text that it begins, so there is one splitting of a text at most
(`Condition.Splits.unique`).

A text says a condition exactly if it splits, and it says the condition of its parts
(`Condition.parse_eq_ok_iff_splits`).  The comparing character is always one that can be read
(`Condition.Splits.exists_parse_symbol`), so the only way to fail is that there is no splitting.
-/
namespace Rulebook

namespace Comparator

/-- The comparing characters are those that write a comparison. -/
theorem exists_symbol_eq_iff {c : Char} :
    (∃ o : Comparator, o.symbol = c) ↔ c = '>' ∨ c = '<' ∨ c = '=' := by
  constructor
  · rintro ⟨o, rfl⟩
    cases o with
    | greater => exact .inl rfl
    | less => exact .inr (.inl rfl)
    | equal => exact .inr (.inr rfl)
  · rintro (rfl | rfl | rfl)
    · exact ⟨.greater, rfl⟩
    · exact ⟨.less, rfl⟩
    · exact ⟨.equal, rfl⟩

/-- A comparison is read back from the word that is its character. -/
theorem parse_singleton_symbol (o : Comparator) : parse (String.singleton o.symbol) = .ok o := by
  cases o <;> rfl

end Comparator

namespace Condition

/-- The text consists of an attribute, a comparing character and a literal, with white space or
nothing around and between them. -/
inductive Splits : List Char → List Char → Char → List Char → Prop
  | mk {before attr gap : List Char} {symbol : Char} {gap' literal after : List Char}
    (hbefore : ∀ c ∈ before, isBlank c) (hne : attr ≠ []) (hattr : ∀ c ∈ attr, isWordChar c)
    (hgap : ∀ c ∈ gap, isBlank c) (hsymbol : symbol = '>' ∨ symbol = '<' ∨ symbol = '=')
    (hgap' : ∀ c ∈ gap', isBlank c) (hliteral : Clause.IsLiteral literal)
    (hafter : ∀ c ∈ after, isBlank c) :
    Splits (before ++ (attr ++ (gap ++ symbol :: (gap' ++ (literal ++ after))))) attr symbol literal

variable {cs attr literal : List Char} {symbol : Char}

/-- **The splittings of a text are the well-formed clauses that it is**, with blanks around them. -/
theorem splits_iff : Splits cs attr symbol literal ↔
    ∃ (before : List Char) (clause : Clause) (after : List Char),
      cs = before ++ (clause.spelling ++ after) ∧ (∀ c ∈ before, isBlank c) ∧
        (∀ c ∈ after, isBlank c) ∧ clause.WellFormed ∧ clause.attr = attr ∧
          clause.comparator.symbol = symbol ∧ clause.literal = literal := by
  constructor
  · intro h
    cases h with
    | @mk before _ gap _ gap' _ after hbefore hne hattr hgap hsymbol hgap' hliteral hafter =>
      obtain ⟨o, rfl⟩ := Comparator.exists_symbol_eq_iff.mpr hsymbol
      refine ⟨before, ⟨attr, gap, o, gap', literal⟩, after, ?_, hbefore, hafter,
        ⟨hne, hattr, hgap, hgap', hliteral⟩, rfl, rfl, rfl⟩
      simp [Clause.spelling]
  · rintro ⟨before, clause, after, rfl, hbefore, hafter, hwf, rfl, rfl, rfl⟩
    have hsymbol := Comparator.exists_symbol_eq_iff.mp ⟨clause.comparator, rfl⟩
    have h := Splits.mk hbefore hwf.attr_ne_nil hwf.attr_word hwf.gapBefore_blank hsymbol
      hwf.gapAfter_blank hwf.literal_isLiteral hafter
    have htext : before ++ (clause.spelling ++ after) =
        before ++ (clause.attr ++ (clause.gapBefore ++ clause.comparator.symbol ::
          (clause.gapAfter ++ (clause.literal ++ after)))) := by
      simp [Clause.spelling]
    rw [htext]
    exact h

/-- **A text splits in one way at most.** -/
theorem Splits.unique {attr' literal' : List Char} {symbol' : Char}
    (h : Splits cs attr symbol literal) (h' : Splits cs attr' symbol' literal') :
    attr = attr' ∧ symbol = symbol' ∧ literal = literal' := by
  obtain ⟨before, clause, after, hcs, hbefore, hafter, hwf, rfl, rfl, rfl⟩ := splits_iff.mp h
  obtain ⟨before', clause', after', hcs', hbefore', hafter', hwf', rfl, rfl, rfl⟩ :=
    splits_iff.mp h'
  -- both clauses are what is read behind the blanks in front
  have hread := hwf.read?_dropWhile_append hbefore hafter
  have hread' := hwf'.read?_dropWhile_append hbefore' hafter'
  rw [← hcs] at hread
  rw [← hcs', hread] at hread'
  have hclause : clause = clause' := (Prod.mk.inj (Option.some.inj hread')).1
  subst hclause
  exact ⟨rfl, rfl, rfl⟩

/-- The comparing character of a splitting can be read. -/
theorem Splits.exists_parse_symbol (h : Splits cs attr symbol literal) :
    ∃ o, Comparator.parse (String.singleton symbol) = .ok o ∧ o.symbol = symbol := by
  obtain ⟨-, clause, -, -, -, -, -, -, rfl, -⟩ := splits_iff.mp h
  exact ⟨clause.comparator, clause.comparator.parse_singleton_symbol, rfl⟩

/-- **A text says a condition exactly if it splits**, and then the condition of its parts. -/
theorem parse_eq_ok_iff_splits {text : String} {c : Condition} :
    parse text = .ok c ↔ ∃ attr symbol literal o, Splits text.toList attr symbol literal ∧
      Comparator.parse (String.singleton symbol) = .ok o ∧
        c = ⟨String.ofList attr, o, .ofLiteral literal⟩ := by
  rw [parse_eq_ok_iff, parse?_eq_some_iff]
  constructor
  · rintro ⟨before, clause, after, hs, hbefore, hafter, hwf, rfl⟩
    refine ⟨clause.attr, clause.comparator.symbol, clause.literal, clause.comparator, ?_,
      clause.comparator.parse_singleton_symbol, rfl⟩
    exact splits_iff.mpr ⟨before, clause, after, hs, hbefore, hafter, hwf, rfl, rfl, rfl⟩
  · rintro ⟨attr, symbol, literal, o, hsplits, ho, rfl⟩
    obtain ⟨before, clause, after, hs, hbefore, hafter, hwf, rfl, rfl, rfl⟩ := splits_iff.mp hsplits
    rw [clause.comparator.parse_singleton_symbol] at ho
    obtain rfl := Except.ok.inj ho
    exact ⟨before, clause, after, hs, hbefore, hafter, hwf, rfl⟩

theorem parse_eq_error_iff {text : String} {e : RuleError} :
    parse text = .error e ↔ e = .malformedCondition text ∧ ¬ ∃ c, parse text = .ok c := by
  unfold parse
  cases parse? text with
  | none => simp [eq_comm]
  | some c => simp

/-- **The reader of conditions accepts its grammar and nothing else, and has no choice in it.**  A
text says a condition exactly if it splits into an attribute, a comparing character and a literal,
and then the condition of these parts.  No text splits into different parts.  What does not split is
refused with its own text, and nothing else is refused: the character that compares in a splitting
can always be read. -/
theorem reads_exactly_splits (text : String) :
    (∀ c, parse text = .ok c ↔ ∃ attr symbol literal o, Splits text.toList attr symbol literal ∧
      Comparator.parse (String.singleton symbol) = .ok o ∧
        c = ⟨String.ofList attr, o, .ofLiteral literal⟩) ∧
    (∀ attr symbol literal attr' symbol' literal', Splits text.toList attr symbol literal →
      Splits text.toList attr' symbol' literal' →
        attr = attr' ∧ symbol = symbol' ∧ literal = literal') ∧
    (∀ e, parse text = .error e ↔
      e = .malformedCondition text ∧
        ¬ ∃ attr symbol literal, Splits text.toList attr symbol literal) ∧
    ∀ attr symbol literal, Splits text.toList attr symbol literal →
      ∃ o, Comparator.parse (String.singleton symbol) = .ok o ∧ o.symbol = symbol := by
  have hsplits : (∃ c, parse text = .ok c) ↔
      ∃ attr symbol literal, Splits text.toList attr symbol literal := by
    constructor
    · rintro ⟨c, hc⟩
      obtain ⟨attr, symbol, literal, o, h, -, -⟩ := parse_eq_ok_iff_splits.mp hc
      exact ⟨attr, symbol, literal, h⟩
    · rintro ⟨attr, symbol, literal, h⟩
      obtain ⟨o, ho, -⟩ := h.exists_parse_symbol
      exact ⟨_, parse_eq_ok_iff_splits.mpr ⟨attr, symbol, literal, o, h, ho, rfl⟩⟩
  refine ⟨fun c => parse_eq_ok_iff_splits, ?_, ?_, ?_⟩
  · intro attr symbol literal attr' symbol' literal' h h'
    exact h.unique h'
  · intro e
    rw [parse_eq_error_iff, hsplits]
  · intro attr symbol literal h
    exact h.exists_parse_symbol

/-- A line break for the only gap, and between the quotes a comparing character, the other quote and
blanks: the text splits in one way.  A literal with a second sign is refused. -/
theorem reads_exactly_splits_quoted :
    parse "é1\n<' > \" '" = .ok ⟨"é1", .less, .text " > \" "⟩ ∧
    (∀ attr symbol literal, Splits "é1\n<' > \" '".toList attr symbol literal →
      attr = "é1".toList ∧ symbol = '<' ∧ literal = "' > \" '".toList) ∧
    parse "a = --1" = .error (.malformedCondition "a = --1") ∧
    ¬ ∃ attr symbol literal, Splits "a = --1".toList attr symbol literal := by
  have hliteral : Clause.IsLiteral "' > \" '".toList :=
    .quoted (.inl rfl) (by decide : '\'' ∉ [' ', '>', ' ', '"', ' '])
  have hsplits : Splits "é1\n<' > \" '".toList "é1".toList '<' "' > \" '".toList :=
    @Splits.mk [] "é1".toList ['\n'] '<' [] _ [] (List.forall_mem_nil _) (by decide)
      (List.all_eq_true.mp (by decide)) (List.all_eq_true.mp (by decide)) (.inr (.inl rfl))
      (List.forall_mem_nil _) hliteral (List.forall_mem_nil _)
  have hrefused : parse "a = --1" = .error (.malformedCondition "a = --1") := by decide +kernel
  refine ⟨?_, ?_, hrefused, (((reads_exactly_splits _).2.2.1 _).mp hrefused).2⟩
  · exact ((reads_exactly_splits _).1 _).mpr ⟨_, _, _, .less, hsplits, rfl, by decide +kernel⟩
  · intro attr symbol literal h
    exact (reads_exactly_splits _).2.1 _ _ _ _ _ _ h hsplits

end Condition

end Rulebook
