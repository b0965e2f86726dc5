import Rulebook.Connective

/-!
# Expression trees

Trees are what a rule means before its conditions are read. A leaf keeps the text of its condition,
which is taken apart only when the tree is evaluated.
-/

namespace Rulebook

/-- An expression: a condition, or two expressions under a connective. -/
inductive Tree
  | leaf (text : String)
  | node (c : Connective) (left right : Tree)
deriving DecidableEq, Repr, Inhabited

namespace Tree

/-- Whether the tree is a single condition. -/
def isLeaf : Tree → Bool
  | .leaf _ => true
  | .node .. => false

/-- The number of nodes and leaves. -/
def size : Tree → Nat
  | .leaf _ => 1
  | .node _ left right => left.size + right.size + 1

/-- The texts of the leaves from left to right, put in front of `rest`. -/
def leavesOnto : Tree → List String → List String
  | .leaf text, rest => text :: rest
  | .node _ left right, rest => left.leavesOnto (right.leavesOnto rest)

/-- The texts of the leaves from left to right. -/
def leaves (t : Tree) : List String := t.leavesOnto []

end Tree

end Rulebook
