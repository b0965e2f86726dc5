import Mathlib.Algebra.Order.Ring.Nat
import Rulebook.Proofs.Conservation

/-! # What a walk over a tree does

A walk takes its steps from a stack and is meant to find the values of both operands whenever it
comes to a join.  Since it computes the fold by recursion, whatever it would do where it finds none
(`Tree.walkFrom_eq_fold`), it always does find them.  In a monad that records the calls of the two
functions, the walk makes the calls of the recursion, in their order and up to the first that fails.

Of the walks with functions of their own, the one that builds the tree anew gives the tree back
(`Tree.copy_eq`), and the two counts bound one another: a tree has at least as many leaves as
levels, and at most two to the number of joins on its longest way (`Tree.leafCount_le_two_pow`).
-/
namespace Rulebook.Tree

/-- A copy is the tree. -/
theorem copy_eq (t : Tree) : t.copy = t := by
  have hfold : t.fold (m := Id) (fun text => pure (.leaf text))
      (fun c a b => pure (.node c a b)) = pure t := by
    induction t with
    | leaf text => rfl
    | node c left right ihl ihr =>
      rw [fold, ihl, ihr]
      rfl
  rw [copy, walk_eq_fold, hfold]
  rfl

theorem depth_pos (t : Tree) : 0 < t.depth := by
  cases t with
  | leaf text => simp
  | node c left right =>
    rw [depth_node]
    omega

/-- A tree has at most as many leaves as there are ways down to its deepest level. -/
theorem leafCount_le_two_pow (t : Tree) : t.leafCount ≤ 2 ^ (t.depth - 1) := by
  induction t with
  | leaf text => simp
  | node c left right ihl ihr =>
    have hlpos := left.depth_pos
    have hrpos := right.depth_pos
    have hlevel : (node c left right).depth - 1 = max left.depth right.depth - 1 + 1 := by
      rw [depth_node]
      omega
    have hl : left.leafCount ≤ 2 ^ (max left.depth right.depth - 1) :=
      Nat.le_trans ihl (Nat.pow_le_pow_right Nat.two_pos (by omega))
    have hr : right.leafCount ≤ 2 ^ (max left.depth right.depth - 1) :=
      Nat.le_trans ihr (Nat.pow_le_pow_right Nat.two_pos (by omega))
    rw [hlevel, leafCount_node, Nat.pow_succ]
    omega

universe u

/-- **A walk is the recursive fold.**  In every lawful monad, whatever state the two functions
change and wherever they fail, the walk with two stacks does what recursion does: it folds the left
operand, then the right one, then joins.  It does so whatever it would do if it were stuck, so it
never is.  Hence a copy is the tree itself, the counts of leaves and of levels obey the equations of
recursion, and each bounds the other. -/
theorem walk_computes_fold {m : Type → Type u} [Monad m] [LawfulMonad m] {α : Type}
    (leaf : String → m α) (join : Connective → α → α → m α) :
    (∀ (stuck : m α) (t : Tree), walkFrom stuck leaf join [.visit t] [] = t.fold leaf join) ∧
      (∀ t : Tree, t.copy = t) ∧
      (∀ text, (Tree.leaf text).leafCount = 1 ∧ (Tree.leaf text).depth = 1) ∧
      (∀ c left right, (node c left right).leafCount = left.leafCount + right.leafCount ∧
        (node c left right).depth = 1 + max left.depth right.depth) ∧
      ∀ t : Tree, t.depth ≤ t.leafCount ∧ t.leafCount ≤ 2 ^ (t.depth - 1) := by
  refine ⟨walkFrom_eq_fold leaf join, copy_eq, ?_, ?_, ?_⟩
  · intro text
    exact ⟨leafCount_leaf text, depth_leaf text⟩
  · intro c left right
    exact ⟨leafCount_node c left right, depth_node c left right⟩
  · intro t
    exact ⟨t.depth_le_leafCount, t.leafCount_le_two_pow⟩

/-! ## A walk that records its calls -/

/-- A call of one of the functions of a fold that counts leaves. -/
inductive CountCall
  | leaf (text : String)
  | join (c : Connective) (a b : Nat)

/-- Counts that record their calls, also those on the way to a failure. -/
abbrev Recorded := ExceptT String (StateM (List CountCall))

/-- Counts a leaf, unless its text is empty. -/
def countLeaf (text : String) : Recorded Nat := do
  modify (· ++ [.leaf text])
  if text = "" then throw "empty" else pure 1

/-- Adds the counts of two operands. -/
def countJoin (c : Connective) (a b : Nat) : Recorded Nat := do
  modify (· ++ [.join c a b])
  pure (a + b)

/-- A walk over four leaves of which the third is refused, in a monad that records the calls.  The
first two are joined before the third is looked at, the fourth is never looked at, and neither is
anything stuck. -/
theorem walk_computes_fold_recorded :
    ((walkFrom (throw "stuck") countLeaf countJoin [.visit (.node .or (.node .and (.leaf "a")
      (.leaf "b")) (.node .and (.leaf "") (.leaf "c")))] [] : Recorded Nat).run).run [] =
        (.error "empty", [.leaf "a", .leaf "b", .join .and 1 1, .leaf ""]) := by
  rw [(walk_computes_fold countLeaf countJoin).1]
  rfl

end Rulebook.Tree
