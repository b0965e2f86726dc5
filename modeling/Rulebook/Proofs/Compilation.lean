import Rulebook.Proofs.ArrangementListing
import Rulebook.Proofs.TokenScan

/-! # What a rule compiles to

A rule compiles to a tree exactly if it has tokens, these can be put into post-order, and the tree
is built from the result (`Tree.compile_eq_ok_iff`).  The leaves of the tree are then the conditions
found in the rule, in their order (`Tree.leaves_of_compile`), and a rule whose tokens are those of a
derivation of the infix grammar compiles to the derivation's tree (`Tree.compile_of_scan_eq`).
-/
namespace Rulebook

theorem Token.tokenize_eq_ok_iff {rule : String} {ts : List Token} :
    tokenize rule = .ok ts ↔ scan rule.toList = ts ∧ ts ≠ [] := by
  unfold tokenize
  split
  · rename_i h
    rw [h]
    constructor
    · intro he
      cases he
    · rintro ⟨rfl, hne⟩
      exact absurd rfl hne
  · rename_i us hne
    constructor
    · intro he
      obtain rfl := Except.ok.inj he
      exact ⟨rfl, hne⟩
    · rintro ⟨rfl, -⟩
      rfl

theorem Token.tokenize_eq_error_iff {rule : String} {e : RuleError} :
    tokenize rule = .error e ↔ scan rule.toList = [] ∧ e = .noTokens rule := by
  cases hs : scan rule.toList with
  | nil => simp [tokenize, hs, eq_comm]
  | cons t ts => simp [tokenize, hs]

namespace Tree

variable {policy : ParenPolicy} {rule : String}

/-- With tokens, the answer is that of reordering and building. -/
theorem result_compile (h : Token.scan rule.toList ≠ []) :
    (compile policy rule).result =
      (toPostorder policy (Token.scan rule.toList)).result.bind ofPostorder := by
  have htokens : Token.tokenize rule = .ok (Token.scan rule.toList) :=
    Token.tokenize_eq_ok_iff.mpr ⟨rfl, h⟩
  simp only [compile, htokens, Outcome.result_bind, Outcome.result_ofExcept, Outcome.result_emit,
    Except.bind]

theorem compile_eq_ok_iff {t : Tree} :
    (compile policy rule).result = .ok t ↔ Token.scan rule.toList ≠ [] ∧
      ∃ post, (toPostorder policy (Token.scan rule.toList)).result = .ok post ∧
        ofPostorder post = .ok t := by
  by_cases h : Token.scan rule.toList = []
  · simp [compile, Outcome.result_bind, Token.tokenize, h, Except.bind]
  · rw [result_compile h, except_bind_eq_ok_iff]
    exact ⟨fun ht => ⟨h, ht⟩, And.right⟩

/-- **The leaves of a compiled rule are the conditions found in it**, in their order. -/
theorem leaves_of_compile {t : Tree} (h : (compile policy rule).result = .ok t) :
    t.leaves = Token.conditions (Token.scan rule.toList) := by
  obtain ⟨-, post, hpost, ht⟩ := compile_eq_ok_iff.mp h
  rw [leaves_of_ofPostorder ht, conditions_toPostorder hpost]

/-- **A rule with the tokens of a derivation compiles to its tree**, under either policy. -/
theorem compile_of_scan_eq {d : Infix.Derivation .expression}
    (h : Token.scan rule.toList = d.tokens) (policy : ParenPolicy) :
    (compile policy rule).result = .ok d.tree := by
  refine compile_eq_ok_iff.mpr ⟨?_, d.tree.postorder, ?_, ofPostorder_postorder d.tree⟩
  · rw [h]
    exact d.tokens_ne_nil
  · rw [h, Infix.toPostorder_tokens]

end Tree

end Rulebook
