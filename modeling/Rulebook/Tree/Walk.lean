import Rulebook.Tree

/-!
# Walks over trees

Trees are walked over with an explicit stack, so that the depth of a tree costs no more than memory.

`Tree.walk` folds a tree: leaves from left to right, and each connective as soon as both its
operands are done. It keeps two stacks, of the steps that are still to be taken and of the values
that are not joined yet. `Tree.fold` is the same fold by recursion on the tree.

`Tree.same` compares two trees by a stack of pairs that have still to be compared, and
`Tree.display` writes the infix form by a stack of pieces that have still to be written.
-/

namespace Rulebook

namespace Tree

universe u

variable {m : Type → Type u} [Monad m] {α : Type}

/-- The fold of a tree by recursion: the left operand, then the right one, then the join. -/
def fold (leaf : String → m α) (join : Connective → α → α → m α) : Tree → m α
  | .leaf text => leaf text
  | .node c left right => do
    let a ← left.fold leaf join
    let b ← right.fold leaf join
    join c a b

/-- A step of a walk. -/
inductive Step
  /-- a tree is folded -/
  | visit (t : Tree)
  /-- the two latest values are joined -/
  | join (c : Connective)

/-- The work that steps stand for. -/
def work : List Step → Nat
  | [] => 0
  | .visit t :: rest => 2 * t.size + work rest
  | .join _ :: rest => 1 + work rest

/-- Takes steps one after the other, with the values that are not joined yet given latest first. The
walk is stuck where a join lacks a value, and where no value is left at the end. -/
def walkFrom (stuck : m α) (leaf : String → m α) (join : Connective → α → α → m α) :
    List Step → List α → m α
  | .visit (.leaf text) :: steps, values => do
    let a ← leaf text
    walkFrom stuck leaf join steps (a :: values)
  | .visit (.node c left right) :: steps, values =>
    walkFrom stuck leaf join (.visit left :: .visit right :: .join c :: steps) values
  | .join c :: steps, right :: left :: values => do
    let a ← join c left right
    walkFrom stuck leaf join steps (a :: values)
  | [], a :: _ => pure a
  | _, _ => stuck
termination_by steps => work steps
decreasing_by
  all_goals simp only [work, size]; omega

/-- The fold of a tree by two stacks. A join always comes behind both of its operands, so the walk
is never stuck, and it makes no difference what it would do then. -/
def walk [Inhabited α] (leaf : String → m α) (join : Connective → α → α → m α) (t : Tree) : m α :=
  walkFrom (pure default) leaf join [.visit t] []

/-- The number of conditions. -/
def leafCount (t : Tree) : Nat :=
  Id.run (t.walk (fun _ => pure 1) fun _ a b => pure (a + b))

/-- The number of nodes on the longest way from the root to a leaf. -/
def depth (t : Tree) : Nat :=
  Id.run (t.walk (fun _ => pure 1) fun _ a b => pure (1 + max a b))

/-- A tree built anew from the leaves up. -/
def copy (t : Tree) : Tree :=
  Id.run (t.walk (fun text => pure (.leaf text)) fun c a b => pure (.node c a b))

/-- The work that a stack of pairs stands for. -/
def pairWork : List (Tree × Tree) → Nat
  | [] => 0
  | (t, _) :: rest => t.size + pairWork rest

/-- Compares the pairs of a stack. -/
def sameAll : List (Tree × Tree) → Bool
  | [] => true
  | (.leaf s, .leaf t) :: rest => if s = t then sameAll rest else false
  | (.node c l r, .node d l' r') :: rest =>
    if c = d then sameAll ((l, l') :: (r, r') :: rest) else false
  | _ => false
termination_by pairs => pairWork pairs
decreasing_by
  all_goals simp only [size, pairWork]; omega

/-- Whether two trees are the same, found by comparing pairs from the root down. -/
def same (x y : Tree) : Bool := sameAll [(x, y)]

/-- A piece of the infix form. -/
inductive Piece
  | tree (t : Tree)
  | text (s : String)

/-- The work that pieces stand for. -/
def pieceWork : List Piece → Nat
  | [] => 0
  | .tree t :: rest => 3 * t.size + pieceWork rest
  | .text _ :: rest => 1 + pieceWork rest

/-- Writes pieces one after the other behind what is written already. -/
def writePieces : List Piece → String → String
  | [], written => written
  | .text s :: pieces, written => writePieces pieces (written ++ s)
  | .tree (.leaf text) :: pieces, written => writePieces pieces (written ++ text)
  | .tree (.node c left right) :: pieces, written =>
    writePieces
      (.tree left :: .text (" " ++ c.word ++ " ") :: .tree right :: .text ")" :: pieces)
      (written ++ "(")
termination_by pieces => pieceWork pieces
decreasing_by
  all_goals simp only [pieceWork, size]; omega

/-- The infix form, with every joined expression in parentheses. -/
def display (t : Tree) : String := writePieces [.tree t] ""

/-- The infix form marked as an expression, for diagnostic output. -/
def describe (t : Tree) : String := "ExpressionNode(" ++ t.display ++ ")"

end Tree

end Rulebook
