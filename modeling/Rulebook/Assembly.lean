import Rulebook.Postorder
import Rulebook.Tree.Walk

/-!
# Building trees

A post-order list is read with a stack of finished trees: a condition is a leaf, and a connective
joins the two latest trees, of which the later is its right operand. The list is a tree if a single
one is left at the end. Compiling a rule is tokenizing it, putting the tokens into post-order and
building the tree; joining several trees is a fold from the left.
-/

namespace Rulebook

namespace Tree

/-- Reads one token of a post-order list, with the finished trees given latest first. -/
def assembleStep (stack : List Tree) : Token → Except RuleError (List Tree)
  | .condition text => .ok (.leaf text :: stack)
  | .connective c =>
    match stack with
    | right :: left :: rest => .ok (.node c left right :: rest)
    | _ => .error (.lacksOperands c)
  | .openParen | .closeParen => .error .strayParenthesis

/-- Reads the tokens of a post-order list one after the other. -/
def assembleFrom (stack : List Tree) : List Token → Except RuleError (List Tree)
  | [] => .ok stack
  | t :: ts => (assembleStep stack t).bind (assembleFrom · ts)

/-- The tree of a post-order list. -/
def ofPostorder (ts : List Token) : Except RuleError Tree :=
  match assembleFrom [] ts with
  | .error e => .error e
  | .ok [] => .error .emptyExpression
  | .ok [t] => .ok t
  | .ok (_ :: rest) => .error (.unjoined rest.length)

/-- The tree of a rule. -/
def compile (policy : ParenPolicy) (rule : String) : Outcome RuleError Tree := do
  let tokens ← .ofExcept (Token.tokenize rule)
  let postorder ← toPostorder policy tokens
  Outcome.emit (.compiling tokens.length postorder.length)
  .ofExcept (ofPostorder postorder)

/-- Joins trees from the left under one connective, if there are any. -/
def joinAll (c : Connective) : List Tree → Option Tree
  | [] => none
  | t :: ts => some (ts.foldl (.node c) t)

/-- Joins trees from the left under one connective and reports it, if there are any. -/
def combine (c : Connective) (ts : List Tree) : Outcome RuleError (Option Tree) :=
  match joinAll c ts with
  | none => pure none
  | some t => ⟨[.combined ts.length c], .ok (some t)⟩

end Tree

end Rulebook
