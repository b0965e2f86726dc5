import Rulebook.Event
import Rulebook.ParenPolicy
import Rulebook.Token

/-!
# From infix order to post-order

Conditions pass through at once; connectives and open parentheses wait on a stack. A connective lets
the waiting connectives that bind at least as tightly go first, up to the next open parenthesis, so
that both connectives group from the left. A `)` releases the connectives down to its `(`.

A `)` that closes nothing either refuses the list or releases everything that waits, as the policy
says; in the second case it is counted. A `(` that is still waiting at the end refuses the list
under both policies.
-/

namespace Rulebook

/-- What waits for its operands: a connective, or the parenthesis that guards those before it. -/
inductive Waiting
  | openParen
  | connective (c : Connective)
deriving DecidableEq, Repr

/-- The state of reordering. -/
structure Reordering where
  /-- the post-order list so far, last token first -/
  output : List Token
  /-- what waits, the latest first -/
  waiting : List Waiting
  /-- how many `)` closed nothing -/
  strays : Nat
deriving Repr

namespace Reordering

/-- Nothing is read yet. -/
def start : Reordering := ⟨[], [], 0⟩

/-- Releases the waiting connectives that bind at least as tightly as `c` and stand above the
first parenthesis. -/
def release (c : Connective) (output : List Token) : List Waiting → List Token × List Waiting
  | .connective top :: rest =>
    if top.precedence < c.precedence then (output, .connective top :: rest)
    else release c (.connective top :: output) rest
  | rest => (output, rest)

/-- Releases the waiting connectives down to the first parenthesis, and that parenthesis. The
parenthesis is missing if none is waiting. -/
def close (output : List Token) : List Waiting → List Token × Option (List Waiting)
  | [] => (output, none)
  | .openParen :: rest => (output, some rest)
  | .connective c :: rest => close (.connective c :: output) rest

/-- Reads one token. -/
def step (policy : ParenPolicy) (r : Reordering) : Token → Except RuleError Reordering
  | .condition text => .ok { r with output := .condition text :: r.output }
  | .openParen => .ok { r with waiting := .openParen :: r.waiting }
  | .closeParen =>
    match close r.output r.waiting, policy with
    | (output, some waiting), _ => .ok ⟨output, waiting, r.strays⟩
    | (_, none), .reject => .error .strayClose
    | (output, none), .drain => .ok ⟨output, [], r.strays + 1⟩
  | .connective c =>
    let (output, waiting) := release c r.output r.waiting
    .ok ⟨output, .connective c :: waiting, r.strays⟩

/-- Reads tokens one after the other. -/
def run (policy : ParenPolicy) (r : Reordering) : List Token → Except RuleError Reordering
  | [] => .ok r
  | t :: ts => (r.step policy t).bind (run policy · ts)

/-- The post-order list, once every token is read: all that waits is released. -/
def finish (r : Reordering) : Except RuleError (List Token) :=
  match close r.output r.waiting with
  | (output, none) => .ok output.reverse
  | (_, some _) => .error .unclosedOpen

end Reordering

/-- Puts a list of tokens into post-order, reporting each `)` that closed nothing. -/
def toPostorder (policy : ParenPolicy) (ts : List Token) : Outcome RuleError (List Token) :=
  match Reordering.start.run policy ts with
  | .error e => ⟨[], .error e⟩
  | .ok r => ⟨List.replicate r.strays .strayDrained, r.finish⟩

end Rulebook
