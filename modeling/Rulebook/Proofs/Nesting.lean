import Rulebook.Proofs.Reordering

/-! # How parentheses nest

A list of tokens is gone over with the number of parentheses that are open.  It goes up at a `(` and
down at a `)`, but not below zero: a `)` that is met while nothing is open is *stray*, and opens or
closes nothing.  A list is *balanced* when it has no stray `)` and leaves nothing open.

These notions say nothing of connectives, of conditions or of the reordering machine, so they are
the same for the parentheses of a list alone (`Token.parentheses`).  The machine has as many
parentheses waiting as are open (`Reordering.depth_release`, `Reordering.exists_waiting` give its
stack the shape that the proofs about it need).
-/
namespace Rulebook

namespace Token

/-- How many parentheses are open after a token, of `depth` that were open before it. -/
def depthAfter (depth : Nat) : Token → Nat
  | .openParen => depth + 1
  | .closeParen => depth - 1
  | _ => depth

/-- How many parentheses are open after some tokens, of `depth` that were open before them. -/
def leftOpen (depth : Nat) (ts : List Token) : Nat := ts.foldl depthAfter depth

/-- One for a `)` that is met while nothing is open, and nothing for every other token. -/
def stray (depth : Nat) (t : Token) : Nat := if t = .closeParen ∧ depth = 0 then 1 else 0

/-- How many `)` are met while nothing is open, if `depth` parentheses are open at the beginning. -/
def strays (depth : Nat) : List Token → Nat
  | [] => 0
  | t :: ts => strays (depthAfter depth t) ts + stray depth t

/-- Every `)` closes a `(`, and every `(` is closed. -/
def Balanced (ts : List Token) : Prop := strays 0 ts = 0 ∧ leftOpen 0 ts = 0

instance (ts : List Token) : Decidable (Balanced ts) :=
  inferInstanceAs (Decidable (strays 0 ts = 0 ∧ leftOpen 0 ts = 0))

/-- Whether a token is a parenthesis. -/
def isParenthesis : Token → Bool
  | .openParen | .closeParen => true
  | _ => false

/-- The parentheses among some tokens. -/
def parentheses (ts : List Token) : List Token := ts.filter isParenthesis

/-- The conditions and connectives among some tokens. -/
def withoutParentheses (ts : List Token) : List Token := ts.filter fun t => !t.isParenthesis

@[simp] theorem stray_closeParen_zero : stray 0 .closeParen = 1 := rfl

@[simp] theorem stray_succ (depth : Nat) (t : Token) : stray (depth + 1) t = 0 :=
  if_neg fun h => absurd h.2 (Nat.succ_ne_zero depth)

@[simp] theorem stray_of_ne {t : Token} (h : t ≠ .closeParen) (depth : Nat) : stray depth t = 0 :=
  if_neg fun ht => h ht.1

end Token

namespace Reordering

/-- How many parentheses wait. -/
def depth (waiting : List Waiting) : Nat := waiting.count .openParen

@[simp] theorem depth_nil : depth [] = 0 := rfl

@[simp] theorem depth_cons_openParen (waiting : List Waiting) :
    depth (.openParen :: waiting) = depth waiting + 1 :=
  List.count_cons_self

@[simp] theorem depth_cons_connective (c : Connective) (waiting : List Waiting) :
    depth (.connective c :: waiting) = depth waiting :=
  List.count_cons_of_ne (by simp)

@[simp] theorem depth_connectives_append (cs : List Connective) (waiting : List Waiting) :
    depth (cs.map .connective ++ waiting) = depth waiting := by
  induction cs with
  | nil => rfl
  | cons c cs ih => rw [List.map_cons, List.cons_append, depth_cons_connective, ih]

/-- A connective releases no parenthesis. -/
@[simp] theorem depth_release (c : Connective) (output : List Token) (waiting : List Waiting) :
    depth (release c output waiting).2 = depth waiting := by
  fun_induction release c output waiting with
  | case1 => rfl
  | case2 output top rest _ ih => rw [ih, depth_cons_connective]
  | case3 => rfl

/-- Above the latest parenthesis that waits, or above the bottom if none does, stand connectives
only. -/
theorem exists_waiting (waiting : List Waiting) :
    (∃ (cs : List Connective) (rest : List Waiting),
      waiting = cs.map .connective ++ .openParen :: rest) ∨
    ∃ cs : List Connective, waiting = cs.map .connective := by
  induction waiting with
  | nil => exact .inr ⟨[], rfl⟩
  | cons w waiting ih =>
    cases w with
    | openParen => exact .inl ⟨[], waiting, rfl⟩
    | connective c =>
      rcases ih with ⟨cs, rest, rfl⟩ | ⟨cs, rfl⟩
      · exact .inl ⟨c :: cs, rest, rfl⟩
      · exact .inr ⟨c :: cs, rfl⟩

end Reordering

end Rulebook
