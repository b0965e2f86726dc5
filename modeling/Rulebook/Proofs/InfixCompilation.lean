import Rulebook.Proofs.CacheSoundness
import Rulebook.Proofs.ClauseGrammar
import Rulebook.Proofs.ArrangementListing

/-! # Infix expressions compile to their trees and mean what they say

The tokens of a derivation are put into the listing of its tree, the tree is built from the listing,
and evaluating the tree gives the truth value of the derivation, with any cache that calls can reach
(`compiles_to_tree`).  The three parts are `toPostorder_tokens`, `Tree.ofPostorder_postorder` and
`verdict_tree`; the last is about evaluation without a cache, which `Cached.faithful_evaluate`
carries over.
-/
namespace Rulebook

/-- Whether a record satisfies the condition that a text says.  A text that says none is satisfied
by no record. -/
def Record.satisfies (r : Record) (text : String) : Bool :=
  (Condition.parse? text).any (·.holds r)

theorem Record.satisfies_of_parse {r : Record} {text : String} {c : Condition}
    (h : Condition.parse text = .ok c) : r.satisfies text = c.holds r := by
  rw [satisfies, Condition.parse_eq_ok_iff.mp h]
  rfl

namespace Infix.Derivation

/-- Without a cache, the tree of a derivation has the truth value of the derivation. -/
theorem verdict_tree {k : Category} (d : Derivation k) (r : Record)
    (h : ∀ text ∈ d.conditions, ∃ c, Condition.parse text = .ok c) :
    d.tree.verdict r = .ok (d.truth r.satisfies) := by
  induction d with
  | condition text =>
    obtain ⟨c, hc⟩ := h text (List.mem_singleton_self text)
    rw [tree, Tree.verdict, hc, truth, Record.satisfies_of_parse hc]
    rfl
  | group inner ih => exact ih h
  | ofFactor f ih => exact ih h
  | ofTerm t ih => exact ih h
  | and left right ihl ihr | or left right ihl ihr =>
    have hl := ihl fun text ht => h text (List.mem_append_left _ ht)
    have hr := ihr fun text ht => h text (List.mem_append_right _ ht)
    rw [tree, Tree.verdict, hl, hr]
    rfl

/-- **Infix expressions compile to their trees and mean what they say.**  For every derivation both
policies put the tokens into the listing of the derivation's tree without reporting a stray
parenthesis, and that tree is what is built from the listing.  If every condition text says a
condition, evaluating the tree gives the truth value of the derivation, whatever the cache holds by
then. -/
theorem compiles_to_tree (d : Derivation .expression) :
    (∀ policy, toPostorder policy d.tokens = ⟨[], .ok d.tree.postorder⟩) ∧
      Tree.ofPostorder d.tree.postorder = .ok d.tree ∧
      ∀ (r : Record) (k : Cache), k.Reachable →
        (∀ text ∈ d.conditions, ∃ c, Condition.parse text = .ok c) →
          ((d.tree.evaluate r).runOn k).1 = .ok (d.truth r.satisfies) := by
  refine ⟨toPostorder_tokens d, Tree.ofPostorder_postorder d.tree, ?_⟩
  intro r k hk h
  rw [(Cached.faithful_evaluate d.tree r k hk.sound).1]
  exact verdict_tree d r h

/-- `a = 'x' OR (b = 'x' OR c = 'x') AND d = 'x'`. -/
def mixed : Derivation .expression :=
  .or (.ofTerm (.ofFactor (.condition "a = 'x'")))
    (.and
      (.ofFactor (.group
        (.or (.ofTerm (.ofFactor (.condition "b = 'x'"))) (.ofFactor (.condition "c = 'x'")))))
      (.condition "d = 'x'"))

/-- The parentheses of `mixed` matter: it holds of a record with the second and the fourth
attribute, but not of one with the second alone. -/
theorem compiles_to_tree_mixed :
    (∀ text ∈ mixed.conditions, ∃ c, Condition.parse text = .ok c) ∧
      ((mixed.tree.evaluate (.ofList [("b", .text "x"), ("d", .text "x")])).runOn .initial).1 =
        .ok true ∧
      ((mixed.tree.evaluate (.ofList [("b", .text "x")])).runOn .initial).1 = .ok false := by
  have h : ∀ text ∈ mixed.conditions, ∃ c, Condition.parse text = .ok c := by
    simp only [Condition.exists_parse_eq_ok_iff]
    decide +kernel
  refine ⟨h, ?_, ?_⟩
  · rw [(compiles_to_tree mixed).2.2 _ _ Cache.reachable_initial h]
    exact congrArg Except.ok (by decide +kernel)
  · rw [(compiles_to_tree mixed).2.2 _ _ Cache.reachable_initial h]
    exact congrArg Except.ok (by decide +kernel)

end Infix.Derivation

end Rulebook
