import Rulebook.Tree.Walk

/-! # The explicit stacks compute the recursive fold

`Tree.walk` keeps its pending work in a stack of steps and its finished values in another,
`Tree.fold` keeps both in the recursion itself.  In every lawful monad the two are the same
computation (`walk_eq_fold`): they perform the same calls of `leaf` and `join` in the same order,
and fail at the same call.  So a fact about a walk, be it an evaluation with a cache or a count, is
proved of the fold, by induction on the tree.  For the two counts, of leaves and of levels, the
recursive equations are stated here.

A visited tree leaves exactly its value on the stack of values, whatever is below
(`walkFrom_visit`).  So a join finds the values of both its operands, and the walk is never stuck.
-/
namespace Rulebook.Tree

universe u

variable {m : Type → Type u} [Monad m] [LawfulMonad m] {α : Type}
variable (leaf : String → m α) (join : Connective → α → α → m α)

/-- Visiting a tree folds it and goes on with its value on top of the others. -/
theorem walkFrom_visit (stuck : m α) (t : Tree) (steps : List Step) (values : List α) :
    walkFrom stuck leaf join (.visit t :: steps) values =
      t.fold leaf join >>= fun a => walkFrom stuck leaf join steps (a :: values) := by
  induction t generalizing steps values with
  | leaf text => rw [walkFrom, fold]
  | node c left right ihl ihr =>
    rw [walkFrom, ihl, fold, bind_assoc]
    refine bind_congr fun a => ?_
    rw [ihr, bind_assoc]
    refine bind_congr fun b => ?_
    rw [walkFrom]

/-- **The explicit stacks compute the recursive fold**, whatever they would do when stuck. -/
theorem walkFrom_eq_fold (stuck : m α) (t : Tree) :
    walkFrom stuck leaf join [.visit t] [] = t.fold leaf join := by
  rw [walkFrom_visit]
  simp only [walkFrom, bind_pure]

theorem walk_eq_fold [Inhabited α] (t : Tree) : t.walk leaf join = t.fold leaf join :=
  walkFrom_eq_fold leaf join (pure default) t

/-! ## Counts -/

@[simp] theorem leafCount_leaf (text : String) : (Tree.leaf text).leafCount = 1 := by
  rw [leafCount, walk_eq_fold]
  rfl

@[simp] theorem leafCount_node (c : Connective) (left right : Tree) :
    (Tree.node c left right).leafCount = left.leafCount + right.leafCount := by
  simp only [leafCount, walk_eq_fold]
  rfl

@[simp] theorem depth_leaf (text : String) : (Tree.leaf text).depth = 1 := by
  rw [depth, walk_eq_fold]
  rfl

@[simp] theorem depth_node (c : Connective) (left right : Tree) :
    (Tree.node c left right).depth = 1 + max left.depth right.depth := by
  simp only [depth, walk_eq_fold]
  rfl

end Rulebook.Tree
