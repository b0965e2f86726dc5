import Rulebook.Proofs.ArrangementReading
import Rulebook.Proofs.Balance
import Rulebook.Proofs.Compilation

/-! # Which rules compile

What the rejecting policy accepts is balanced (`exists_toPostorder_reject_iff`), hence the tokens
of an arrangement, and it is put into the listing of that arrangement
(`toPostorder_reject_eq_ok_iff`).  So a rule compiles exactly if the arrangement of its tokens lists
a tree (`Tree.compile_reject_eq_ok_iff`).

Such an arrangement need not be an infix expression.  Neither the machine nor the builder asks where
an operand is due, so an operand that is too many in one place makes up for one that is missing in
another, if the connective in want of it is listed behind it.  As many operands are missing then as
are too many, and the rule is infix exactly if none is missing (`compiles_iff_arranged`).  Every
other balanced list is a malformed expression.
-/
namespace Rulebook

namespace Infix

/-- **What the rejecting policy makes of a list** is the listing of the arrangement that has these
tokens; it accepts no list without one. -/
theorem toPostorder_reject_eq_ok_iff {ts post : List Token} :
    (toPostorder .reject ts).result = .ok post ↔
      ∃ a : Arrangement .expression, a.tokens = ts ∧ a.listing = post := by
  constructor
  · intro h
    obtain ⟨a, rfl⟩ := exists_tokens_eq (exists_toPostorder_reject_iff.mp ⟨post, h⟩)
    rw [a.toPostorder_tokens] at h
    exact ⟨a, rfl, Except.ok.inj h⟩
  · rintro ⟨a, rfl, rfl⟩
    rw [a.toPostorder_tokens]

end Infix

namespace Tree

theorem postorder_ne_nil (t : Tree) : t.postorder ≠ [] := by
  cases t with
  | leaf text => exact List.cons_ne_nil _ _
  | node c left right => exact List.append_ne_nil_of_right_ne_nil _ (List.cons_ne_nil _ _)

/-- A rule compiles exactly if its arrangement lists a tree. -/
theorem compile_reject_eq_ok_iff {rule : String} {t : Tree} :
    (compile .reject rule).result = .ok t ↔
      ∃ a : Infix.Arrangement .expression,
        a.tokens = Token.scan rule.toList ∧ a.listing = t.postorder := by
  simp only [compile_eq_ok_iff, Infix.toPostorder_reject_eq_ok_iff, ofPostorder_eq_ok_iff]
  constructor
  · rintro ⟨-, post, ⟨a, ha, rfl⟩, hlisting⟩
    exact ⟨a, ha, hlisting⟩
  · rintro ⟨a, ha, hlisting⟩
    refine ⟨?_, a.listing, ⟨a, ha, rfl⟩, hlisting⟩
    intro hnil
    -- without tokens there is no listing
    obtain rfl : a = .ofTerm (.ofPlace .vacant) := Infix.tokens_injective (ha.trans hnil)
    exact t.postorder_ne_nil hlisting.symm

end Tree

namespace Infix

variable {a : Arrangement .expression}

/-- An arrangement that lists a tree lacks as many operands as it has too many. -/
theorem lacking_eq_surplus_of_listing {t : Tree} (h : a.listing = t.postorder) :
    a.lacking = a.surplus := by
  have hcount := a.length_conditions_listing
  rw [h, t.length_conditions_postorder, a.held_expression] at hcount
  omega

/-- A balanced list whose arrangement lists no tree is a malformed expression. -/
theorem kind_of_listing_ne (h : ∀ t : Tree, a.listing ≠ t.postorder) :
    ∃ e, (toPostorder .reject a.tokens).result.bind Tree.ofPostorder = .error e ∧
      e.kind = .malformedExpression := by
  rw [a.toPostorder_tokens]
  cases hbuild : Tree.ofPostorder a.listing with
  | ok t => exact absurd (Tree.ofPostorder_eq_ok_iff.mp hbuild) (h t)
  | error e => exact ⟨e, hbuild, Tree.kind_of_ofPostorder hbuild⟩

/-- A rule with balanced tokens compiles, or it is a malformed expression. -/
theorem compile_of_balanced {rule : String} (hne : Token.scan rule.toList ≠ [])
    (hb : Token.Balanced (Token.scan rule.toList)) :
    (∃ t, (Tree.compile .reject rule).result = .ok t) ∨
      ∃ e, (Tree.compile .reject rule).result = .error e ∧ e.kind = .malformedExpression := by
  obtain ⟨a, ha⟩ := exists_tokens_eq hb
  by_cases h : ∃ t : Tree, a.listing = t.postorder
  · obtain ⟨t, ht⟩ := h
    exact .inl ⟨t, Tree.compile_reject_eq_ok_iff.mpr ⟨a, ha, ht⟩⟩
  · rw [Tree.result_compile hne, ← ha]
    exact .inr (kind_of_listing_ne fun t ht => h ⟨t, ht⟩)

/-- **Which rules compile.**  A rule compiles exactly if its tokens are those of an arrangement that
lists a tree, and that is the tree.  An arrangement that lists a tree lacks as many operands as it
has too many, and its tokens are those of an infix expression exactly if it lacks none.  Every other
balanced list is answered as a malformed expression, and so is every other rule with balanced
tokens. -/
theorem compiles_iff_arranged :
    (∀ (rule : String) (t : Tree), (Tree.compile .reject rule).result = .ok t ↔
      ∃ a : Arrangement .expression,
        a.tokens = Token.scan rule.toList ∧ a.listing = t.postorder) ∧
    (∀ (a : Arrangement .expression) (t : Tree), a.listing = t.postorder →
      a.lacking = a.surplus ∧
        ((∃ d : Derivation .expression, d.tokens = a.tokens) ↔ a.lacking = 0)) ∧
    (∀ ts : List Token, Token.Balanced ts →
      (¬ ∃ (a : Arrangement .expression) (t : Tree), a.tokens = ts ∧ a.listing = t.postorder) →
        ∃ e, (toPostorder .reject ts).result.bind Tree.ofPostorder = .error e ∧
          e.kind = .malformedExpression) ∧
    ∀ rule : String, Token.scan rule.toList ≠ [] → Token.Balanced (Token.scan rule.toList) →
      (∃ t, (Tree.compile .reject rule).result = .ok t) ∨
        ∃ e, (Tree.compile .reject rule).result = .error e ∧ e.kind = .malformedExpression := by
  refine ⟨fun _ _ => Tree.compile_reject_eq_ok_iff, ?_, ?_, fun _ => compile_of_balanced⟩
  · intro a t h
    have hcount := lacking_eq_surplus_of_listing h
    refine ⟨hcount, exists_derivation_iff.trans ?_⟩
    rw [← hcount, and_self]
  · intro ts hts hnone
    obtain ⟨a, rfl⟩ := exists_tokens_eq hts
    exact kind_of_listing_ne fun t h => hnone ⟨a, t, rfl, h⟩

/-- `a > 1 (b > 2 AND)`, where the place behind `AND` is empty and the outer place has an operand
too many, which is listed in front of `AND`. -/
def operandAhead : Arrangement .expression :=
  .ofTerm (.ofPlace (.group (.condition .vacant "a > 1")
    (.ofTerm (.and (.ofPlace (.condition .vacant "b > 2")) .vacant))))

theorem tokens_operandAhead :
    operandAhead.tokens = Token.scan "a > 1 (b > 2 AND)".toList := by cbv

/-- `(AND a > 1) b > 2`, where the place in front of `AND` is empty and the outer place has an
operand too many, which is listed behind `AND`. -/
def operandBehind : Arrangement .expression :=
  .ofTerm (.ofPlace (.condition (.group .vacant
    (.ofTerm (.and (.ofPlace .vacant) (.condition .vacant "a > 1")))) "b > 2"))

theorem tokens_operandBehind :
    operandBehind.tokens = Token.scan "(AND a > 1) b > 2".toList := by cbv

/-- In the listing of `operandBehind`, one operand stands in front of `AND`. -/
theorem listing_operandBehind_ne (t : Tree) : operandBehind.listing ≠ t.postorder := by
  intro h
  have hbuild : Tree.ofPostorder operandBehind.listing = .error (.lacksOperands .and) := rfl
  rw [Tree.ofPostorder_eq_ok_iff.mpr h] at hbuild
  cases hbuild

/-- Of two rules that lack an operand and have one too many, the one whose operand is listed ahead
of the connective compiles, and the other one is malformed. -/
theorem compiles_iff_arranged_misplaced :
    (Tree.compile .reject "a > 1 (b > 2 AND)").result =
        .ok (.node .and (.leaf "a > 1") (.leaf "b > 2")) ∧
      (operandAhead.lacking = operandAhead.surplus ∧
        ((∃ d : Derivation .expression, d.tokens = operandAhead.tokens) ↔
          operandAhead.lacking = 0)) ∧
      operandBehind.lacking = operandBehind.surplus ∧
      (∃ e, (toPostorder .reject operandBehind.tokens).result.bind Tree.ofPostorder = .error e ∧
        e.kind = .malformedExpression) ∧
      ∃ e, (Tree.compile .reject "(AND a > 1) b > 2").result = .error e ∧
        e.kind = .malformedExpression := by
  refine ⟨(compiles_iff_arranged.1 _ _).mpr ⟨operandAhead, tokens_operandAhead, rfl⟩,
    compiles_iff_arranged.2.1 operandAhead (.node .and (.leaf "a > 1") (.leaf "b > 2")) rfl, rfl,
    compiles_iff_arranged.2.2.1 operandBehind.tokens (by decide) ?_, ?_⟩
  · rintro ⟨a, t, htokens, hlisting⟩
    obtain rfl := tokens_injective htokens
    exact listing_operandBehind_ne t hlisting
  · have hne : operandBehind.tokens ≠ [] := List.cons_ne_nil _ _
    have hb : Token.Balanced operandBehind.tokens := by decide
    rw [tokens_operandBehind] at hne hb
    rcases compiles_iff_arranged.2.2.2 "(AND a > 1) b > 2" hne hb with ⟨t, ht⟩ | h
    · obtain ⟨a, htokens, hlisting⟩ := (compiles_iff_arranged.1 _ _).mp ht
      obtain rfl := tokens_injective (htokens.trans tokens_operandBehind.symm)
      exact absurd hlisting (listing_operandBehind_ne t)
    · exact h

/-- `a > 1 b > 2 AND`, where the place behind `AND` is empty and the one in front of it has an
operand too many. -/
def connectiveLast : Arrangement .expression :=
  .ofTerm (.and (.ofPlace (.condition (.condition .vacant "a > 1") "b > 2")) .vacant)

theorem tokens_connectiveLast :
    connectiveLast.tokens = Token.scan "a > 1 b > 2 AND".toList := by cbv

/-- A rule that is no infix expression can compile: behind two operands, `AND` finds both. -/
theorem compiles_without_infix :
    (Tree.compile .reject "a > 1 b > 2 AND").result =
        .ok (.node .and (.leaf "a > 1") (.leaf "b > 2")) ∧
      ¬ ∃ d : Derivation .expression, d.tokens = Token.scan "a > 1 b > 2 AND".toList := by
  refine ⟨Tree.compile_reject_eq_ok_iff.mpr ⟨connectiveLast, tokens_connectiveLast, rfl⟩, ?_⟩
  rw [← tokens_connectiveLast, exists_derivation_iff]
  decide

end Infix

end Rulebook
