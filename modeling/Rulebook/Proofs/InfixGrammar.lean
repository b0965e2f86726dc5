import Rulebook.Token
import Rulebook.Tree

/-! # The infix grammar

Infix expressions are given by their derivations in the grammar

* expression: a term, or an expression `OR` a term;
* term: a factor, or a term `AND` a factor;
* factor: a condition, or an expression in parentheses.

A derivation has tokens, a tree and a truth value.  Both joins group from the left and `AND` binds
tighter than `OR`, since that is how the grammar nests.
-/
namespace Rulebook.Infix

/-- The categories of infix expressions. -/
inductive Category
  | expression
  | term
  | factor
deriving DecidableEq, Repr

/-- The derivations of a category. -/
inductive Derivation : Category → Type
  | condition (text : String) : Derivation .factor
  | group (inner : Derivation .expression) : Derivation .factor
  | ofFactor (f : Derivation .factor) : Derivation .term
  | and (left : Derivation .term) (right : Derivation .factor) : Derivation .term
  | ofTerm (t : Derivation .term) : Derivation .expression
  | or (left : Derivation .expression) (right : Derivation .term) : Derivation .expression

namespace Derivation

/-- The tokens that a derivation yields. -/
def tokens {k : Category} : Derivation k → List Token
  | .condition text => [.condition text]
  | .group inner => .openParen :: (inner.tokens ++ [.closeParen])
  | .ofFactor f => f.tokens
  | .and left right => left.tokens ++ .connective .and :: right.tokens
  | .ofTerm t => t.tokens
  | .or left right => left.tokens ++ .connective .or :: right.tokens

/-- The tree of a derivation: its parentheses are gone, its grouping stays. -/
def tree {k : Category} : Derivation k → Tree
  | .condition text => .leaf text
  | .group inner => inner.tree
  | .ofFactor f => f.tree
  | .and left right => .node .and left.tree right.tree
  | .ofTerm t => t.tree
  | .or left right => .node .or left.tree right.tree

/-- The texts of the conditions of a derivation, from left to right. -/
def conditions {k : Category} : Derivation k → List String
  | .condition text => [text]
  | .group inner => inner.conditions
  | .ofFactor f => f.conditions
  | .and left right => left.conditions ++ right.conditions
  | .ofTerm t => t.conditions
  | .or left right => left.conditions ++ right.conditions

/-- The truth value of a derivation, given those of the texts of its conditions. -/
def truth (holds : String → Bool) {k : Category} : Derivation k → Bool
  | .condition text => holds text
  | .group inner => inner.truth holds
  | .ofFactor f => f.truth holds
  | .and left right => left.truth holds && right.truth holds
  | .ofTerm t => t.truth holds
  | .or left right => left.truth holds || right.truth holds

variable {k : Category}

theorem tokens_ne_nil (d : Derivation k) : d.tokens ≠ [] := by
  induction d with
  | condition text => exact List.cons_ne_nil _ _
  | group inner _ => exact List.cons_ne_nil _ _
  | ofFactor f ih => exact ih
  | and left right _ _ => exact List.append_ne_nil_of_right_ne_nil _ (List.cons_ne_nil _ _)
  | ofTerm t ih => exact ih
  | or left right _ _ => exact List.append_ne_nil_of_right_ne_nil _ (List.cons_ne_nil _ _)

end Derivation

end Rulebook.Infix
