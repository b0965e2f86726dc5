import Rulebook.Proofs.Arrangement
import Rulebook.Proofs.Reordering

/-! # The listing of an arrangement is what the machine makes of its tokens

The reordering machine reads the tokens of an arrangement from any state whose stack the category of
the arrangement permits (`Category.Permits`).  It puts out a part of the listing and leaves the
rest, which is connectives only, on the stack (`Arrangement.run_tokens`): `emitted` and `pending`
are these two parts, and together they are the listing (`emitted_append_pending`).

So the tokens of an arrangement are put into its listing (`Arrangement.toPostorder_tokens`), and
those of an infix expression into the listing of its tree (`toPostorder_tokens`).
-/
namespace Rulebook.Infix

namespace Arrangement

/-- The connectives of an arrangement that still wait once its tokens are read, the latest first. -/
def pending {k : Category} : Arrangement k → List Connective
  | .vacant | .condition _ _ | .group _ _ => []
  | .ofPlace _ => []
  | .and _ _ => [.and]
  | .ofTerm t => t.pending
  | .or _ right => right.pending ++ [.or]

/-- The part of the listing that is put out while the tokens of an arrangement are read. -/
def emitted {k : Category} : Arrangement k → List Token
  | .vacant => []
  | .condition before text => before.emitted ++ [.condition text]
  | .group before inner => before.emitted ++ (inner.emitted ++ inner.pending.map .connective)
  | .ofPlace place => place.emitted
  | .and left right => left.emitted ++ left.pending.map .connective ++ right.emitted
  | .ofTerm t => t.emitted
  | .or left right => left.emitted ++ left.pending.map .connective ++ right.emitted

theorem pending_place (place : Arrangement .factor) : place.pending = [] := by
  cases place <;> rfl

theorem pending_term (t : Arrangement .term) : ∀ c ∈ t.pending, c = .and := by
  cases t with
  | ofPlace place => simp [pending]
  | and left right => simp [pending]

theorem emitted_append_pending {k : Category} (a : Arrangement k) :
    a.emitted ++ a.pending.map .connective = a.listing := by
  induction a with
  | vacant => rfl
  | condition before text ih =>
    rw [pending_place, List.map_nil, List.append_nil] at ih
    rw [listing, ← ih, emitted, pending, List.map_nil, List.append_nil]
  | group before inner ihb ihi =>
    rw [pending_place, List.map_nil, List.append_nil] at ihb
    rw [listing, ← ihb, ← ihi, emitted, pending, List.map_nil, List.append_nil]
  | ofPlace place ih =>
    rw [pending_place] at ih
    exact ih
  | and left right ihl ihr =>
    rw [pending_place, List.map_nil, List.append_nil] at ihr
    rw [listing, ← ihl, ← ihr]
    rfl
  | ofTerm t ih => exact ih
  | or left right ihl ihr =>
    rw [listing, ← ihl, ← ihr, emitted, pending]
    simp

end Arrangement

open Reordering

/-- The stacks from which an arrangement of the category can be read: none of its own connectives
releases anything that already waits. -/
def Category.Permits : Category → List Waiting → Prop
  | .expression, waiting => Guards .or waiting
  | .term, waiting => Guards .and waiting
  | .factor, _ => True

/-- What guards the looser connective guards the tighter one. -/
theorem guards_and_of_guards_or {waiting : List Waiting} (h : Guards .or waiting) :
    Guards .and waiting := by
  match waiting, h with
  | [], _ => trivial
  | .openParen :: _, _ => trivial
  | .connective top :: _, h => exact Nat.lt_trans h (by decide)

namespace Arrangement

/-- **Reading an arrangement.**  From every permitted stack its tokens are read without a stray
parenthesis, and what they put out and leave waiting does not depend on that stack. -/
theorem run_tokens {k : Category} (a : Arrangement k) (policy : ParenPolicy) (output : List Token)
    (waiting : List Waiting) (strays : Nat) (h : k.Permits waiting) :
    run policy ⟨output, waiting, strays⟩ a.tokens =
      .ok ⟨a.emitted.reverse ++ output, a.pending.map .connective ++ waiting, strays⟩ := by
  induction a generalizing output waiting with
  | vacant => rfl
  | condition before text ih =>
    rw [tokens, run_append, ih output waiting h, pending_place, pending, emitted]
    simp only [Except.bind, run, step]
    simp
  | group before inner ihb ihi =>
    -- behind the parenthesis every expression is permitted, and closing it releases what is pending
    have hb := ihb output waiting h
    have hi := ihi (before.emitted.reverse ++ output) (.openParen :: waiting) trivial
    have hc := step_closeParen_openParen policy inner.pending
      (inner.emitted.reverse ++ (before.emitted.reverse ++ output)) waiting strays
    rw [pending_place, List.map_nil, List.nil_append] at hb
    rw [tokens, run_append, hb, Except.bind, run, step, Except.bind, run_append, hi, Except.bind,
      run, hc]
    simp [Except.bind, run, emitted, pending]
  | ofPlace place ih =>
    have hp := ih output waiting trivial
    rw [pending_place] at hp
    exact hp
  | and left right ihl ihr =>
    -- the connective releases what the left operand left waiting, and nothing below that
    have hl := ihl output waiting h
    have hpending : ∀ d ∈ left.pending, Connective.and.precedence ≤ d.precedence := by
      intro d hd
      exact Nat.le_of_eq (by rw [pending_term left d hd])
    have hrel := release_append hpending h (left.emitted.reverse ++ output)
    have hr := ihr ((left.pending.map .connective).reverse ++ (left.emitted.reverse ++ output))
      (.connective .and :: waiting) trivial
    rw [pending_place] at hr
    rw [tokens, run_append, hl]
    simp only [Except.bind, run, step, hrel]
    rw [hr]
    simp [emitted, pending]
  | ofTerm t ih => exact ih output waiting (guards_and_of_guards_or h)
  | or left right ihl ihr =>
    have hl := ihl output waiting h
    have hpending : ∀ d ∈ left.pending, Connective.or.precedence ≤ d.precedence := by
      intro d _
      cases d <;> decide
    have hrel := release_append hpending h (left.emitted.reverse ++ output)
    have hr := ihr ((left.pending.map .connective).reverse ++ (left.emitted.reverse ++ output))
      (.connective .or :: waiting) (show Connective.precedence .or < Connective.precedence .and by
        decide)
    rw [tokens, run_append, hl]
    simp only [Except.bind, run, step, hrel]
    rw [hr]
    simp [emitted, pending]

/-- **The tokens of an arrangement are put into its listing**, under either policy. -/
theorem toPostorder_tokens (a : Arrangement .expression) (policy : ParenPolicy) :
    toPostorder policy a.tokens = ⟨[], .ok a.listing⟩ := by
  have hr := run_tokens a policy [] [] 0 trivial
  rw [List.append_nil, List.append_nil] at hr
  rw [toPostorder, start, hr]
  simp only [finish, close_connectives, List.replicate_zero]
  rw [← emitted_append_pending]
  simp

end Arrangement

/-- **An infix expression is put into the listing of its tree**, under either policy. -/
theorem toPostorder_tokens (d : Derivation .expression) (policy : ParenPolicy) :
    toPostorder policy d.tokens = ⟨[], .ok d.tree.postorder⟩ := by
  rw [← d.tokens_arrangement, d.arrangement.toPostorder_tokens, d.listing_arrangement]

end Rulebook.Infix
