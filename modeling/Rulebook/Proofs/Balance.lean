import Rulebook.Proofs.DrainPolicy

/-! # Which lists can be put into post-order

The reordering machine keeps no count of parentheses; it sees them on a stack on which connectives
wait too.  Still it answers as if it counted.  Whether it accepts a list, and which error it gives
otherwise, depends on the number of stray `)` and on the number of `(` left open, and on nothing
else (`acceptance_drain`, `acceptance_reject`).

Both numbers can be read off the list.  There is no stray `)` exactly if no beginning of the list
has more `)` than `(` (`Token.strays_eq_zero_iff`), and with the number of stray `)` the number of
`(` left open is what the totals differ by (`Token.leftOpen_add_count`).  Conditions and connectives
count for neither (`Token.strays_parentheses`, `Token.leftOpen_parentheses`).
-/
namespace Rulebook

/-! ## Counting parentheses -/

namespace Token

theorem depthAfter_add_count (depth : Nat) (t : Token) :
    depthAfter depth t + [t].count .closeParen =
      depth + [t].count .openParen + stray depth t := by
  cases t with
  | condition text => simp [depthAfter]
  | connective c => simp [depthAfter]
  | openParen => simp [depthAfter]
  | closeParen => cases depth <;> simp [depthAfter]

theorem leftOpen_cons (depth : Nat) (t : Token) (ts : List Token) :
    leftOpen depth (t :: ts) = leftOpen (depthAfter depth t) ts := rfl

/-- Every `(` is closed or left open, and every `)` closes a `(` or is stray. -/
theorem leftOpen_add_count (depth : Nat) (ts : List Token) :
    leftOpen depth ts + ts.count .closeParen =
      depth + ts.count .openParen + strays depth ts := by
  induction ts generalizing depth with
  | nil => rfl
  | cons t ts ih =>
    have hstep := depthAfter_add_count depth t
    have hrest := ih (depthAfter depth t)
    rw [← List.singleton_append, List.count_append, List.count_append, List.singleton_append,
      leftOpen_cons, strays]
    omega

/-- There is no stray `)` exactly if no beginning of the list closes more than is open. -/
theorem strays_eq_zero_iff {depth : Nat} {ts : List Token} :
    strays depth ts = 0 ↔
      ∀ before, before <+: ts → before.count .closeParen ≤ depth + before.count .openParen := by
  induction ts generalizing depth with
  | nil => simp [strays]
  | cons t ts ih =>
    have hstep := depthAfter_add_count depth t
    rw [strays, Nat.add_eq_zero_iff, ih]
    constructor
    · rintro ⟨hrest, hstray⟩ before hbefore
      rcases List.prefix_cons_iff.mp hbefore with rfl | ⟨front, rfl, hfront⟩
      · exact Nat.zero_le _
      · have hle := hrest front hfront
        rw [← List.singleton_append, List.count_append, List.count_append]
        omega
    · intro h
      have hstray : stray depth t = 0 := by
        refine if_neg ?_
        rintro ⟨rfl, rfl⟩
        exact absurd (h [.closeParen] (by simp)) (by decide)
      refine ⟨fun front hfront => ?_, hstray⟩
      have hle := h (t :: front) (List.prefix_cons_inj t |>.mpr hfront)
      rw [← List.singleton_append, List.count_append, List.count_append] at hle
      omega

/-- A list is balanced if no beginning of it closes more than it opens, and all of it closes as much
as it opens. -/
theorem balanced_iff_count {ts : List Token} :
    Balanced ts ↔
      (∀ before, before <+: ts → before.count .closeParen ≤ before.count .openParen) ∧
        ts.count .openParen = ts.count .closeParen := by
  have hcount := leftOpen_add_count 0 ts
  have hstrays := @strays_eq_zero_iff 0 ts
  simp only [Nat.zero_add] at hcount hstrays
  rw [Balanced, ← hstrays]
  constructor
  · rintro ⟨h, hopen⟩
    exact ⟨h, by omega⟩
  · rintro ⟨h, heq⟩
    exact ⟨h, by omega⟩

theorem strays_parentheses (depth : Nat) (ts : List Token) :
    strays depth (parentheses ts) = strays depth ts := by
  induction ts generalizing depth with
  | nil => rfl
  | cons t ts ih =>
    cases t with
    | openParen => exact congrArg (· + stray depth .openParen) (ih _)
    | closeParen => exact congrArg (· + stray depth .closeParen) (ih _)
    | condition text => exact (ih depth).trans (by simp [strays, depthAfter])
    | connective c => exact (ih depth).trans (by simp [strays, depthAfter])

theorem leftOpen_parentheses (depth : Nat) (ts : List Token) :
    leftOpen depth (parentheses ts) = leftOpen depth ts := by
  induction ts generalizing depth with
  | nil => rfl
  | cons t ts ih => cases t <;> exact ih _

/-- Some beginning of a list with a stray `)` closes more than it opens. -/
theorem strays_ne_zero_iff {ts : List Token} :
    strays 0 ts ≠ 0 ↔
      ∃ before, before <+: ts ∧ before.count .openParen < before.count .closeParen := by
  rw [Ne, strays_eq_zero_iff]
  simp only [Nat.zero_add, Classical.not_forall, Nat.not_le, exists_prop]

end Token

/-! ## What the machine answers -/

/-- Whether a list was accepted, and the error if it was not. -/
def acceptance (o : Outcome RuleError (List Token)) : Except RuleError Unit :=
  o.result.map fun _ => ()

theorem exists_result_eq_ok_iff {o : Outcome RuleError (List Token)} :
    (∃ post, o.result = .ok post) ↔ acceptance o = .ok () := by
  unfold acceptance
  cases o.result <;> simp [Except.map]

theorem result_eq_error_iff {o : Outcome RuleError (List Token)} {e : RuleError} :
    o.result = .error e ↔ acceptance o = .error e := by
  unfold acceptance
  cases o.result <;> simp [Except.map]

namespace Reordering

/-- At the end it matters only whether a parenthesis waits. -/
theorem map_finish (r : Reordering) :
    r.finish.map (fun _ => ()) =
      if depth r.waiting = 0 then .ok () else .error .unclosedOpen := by
  obtain ⟨output, waiting, strays⟩ := r
  rcases exists_waiting waiting with ⟨cs, rest, rfl⟩ | ⟨cs, rfl⟩
  · simp [finish, close_append_openParen, Except.map]
  · have hdepth : depth (cs.map .connective) = 0 := by simpa using depth_connectives_append cs []
    simp [finish, close_connectives, Except.map, hdepth]

end Reordering

open Reordering

/-- The draining policy asks whether a `(` is left open. -/
theorem acceptance_drain (ts : List Token) :
    acceptance (toPostorder .drain ts) =
      if Token.leftOpen 0 ts = 0 then .ok () else .error .unclosedOpen := by
  obtain ⟨output, waiting, hdepth, hdrain, -⟩ := run_advance ts [] []
  rw [acceptance, toPostorder_of_run (hdrain 0), map_finish]
  rw [depth_nil] at hdepth
  rw [hdepth]

/-- The rejecting policy asks first whether a `)` is stray. -/
theorem acceptance_reject (ts : List Token) :
    acceptance (toPostorder .reject ts) =
      if Token.strays 0 ts = 0 then
        if Token.leftOpen 0 ts = 0 then .ok () else .error .unclosedOpen
      else .error .strayClose := by
  split
  · rename_i h
    obtain ⟨r, hdrain, hreject⟩ := exists_toPostorder ts
    rw [h] at hdrain hreject
    rw [← acceptance_drain, hdrain]
    exact congrArg acceptance hreject
  · rename_i h
    rw [toPostorder_reject_of_strays h]
    rfl

/-- Conditions and connectives do not matter. -/
theorem acceptance_parentheses (policy : ParenPolicy) (ts : List Token) :
    acceptance (toPostorder policy ts) =
      acceptance (toPostorder policy (Token.parentheses ts)) := by
  cases policy with
  | drain => rw [acceptance_drain, acceptance_drain, Token.leftOpen_parentheses]
  | reject =>
    rw [acceptance_reject, acceptance_reject, Token.leftOpen_parentheses, Token.strays_parentheses]

variable {ts : List Token}

theorem exists_toPostorder_reject_iff :
    (∃ post, (toPostorder .reject ts).result = .ok post) ↔ Token.Balanced ts := by
  rw [exists_result_eq_ok_iff, acceptance_reject, Token.Balanced]
  by_cases hstrays : Token.strays 0 ts = 0 <;> by_cases hopen : Token.leftOpen 0 ts = 0 <;>
    simp [hstrays, hopen]

theorem toPostorder_reject_eq_strayClose_iff :
    (toPostorder .reject ts).result = .error .strayClose ↔ Token.strays 0 ts ≠ 0 := by
  rw [result_eq_error_iff, acceptance_reject]
  by_cases hstrays : Token.strays 0 ts = 0 <;> by_cases hopen : Token.leftOpen 0 ts = 0 <;>
    simp [hstrays, hopen]

theorem toPostorder_reject_eq_unclosedOpen_iff :
    (toPostorder .reject ts).result = .error .unclosedOpen ↔
      Token.strays 0 ts = 0 ∧ Token.leftOpen 0 ts ≠ 0 := by
  rw [result_eq_error_iff, acceptance_reject]
  by_cases hstrays : Token.strays 0 ts = 0 <;> by_cases hopen : Token.leftOpen 0 ts = 0 <;>
    simp [hstrays, hopen]

theorem exists_toPostorder_drain_iff :
    (∃ post, (toPostorder .drain ts).result = .ok post) ↔ Token.leftOpen 0 ts = 0 := by
  rw [exists_result_eq_ok_iff, acceptance_drain]
  by_cases hopen : Token.leftOpen 0 ts = 0 <;> simp [hopen]

theorem toPostorder_drain_eq_error_iff {e : RuleError} :
    (toPostorder .drain ts).result = .error e ↔
      Token.leftOpen 0 ts ≠ 0 ∧ e = .unclosedOpen := by
  rw [result_eq_error_iff, acceptance_drain]
  by_cases hopen : Token.leftOpen 0 ts = 0 <;> simp [hopen, eq_comm]

/-- **The balanced lists are accepted, and no others.**  The rejecting policy accepts a list exactly
if no beginning of it has more `)` than `(` and all of it has as many.  It answers that a `)` has no
matching `(` exactly if some beginning has more `)`, and that a `(` is never closed exactly if none
has and there are more `(` in all.  The draining policy accepts a list exactly if the count that
goes up at `(`, and down at `)` but not below zero, is zero at the end, and its one error is that a
`(` is never closed.  Under both policies acceptance, and the error, are those of the parentheses
alone. -/
theorem accepts_exactly_balanced (ts : List Token) :
    ((∃ post, (toPostorder .reject ts).result = .ok post) ↔
      (∀ before, before <+: ts → before.count .closeParen ≤ before.count .openParen) ∧
        ts.count .openParen = ts.count .closeParen) ∧
    ((toPostorder .reject ts).result = .error .strayClose ↔
      ∃ before, before <+: ts ∧ before.count .openParen < before.count .closeParen) ∧
    ((toPostorder .reject ts).result = .error .unclosedOpen ↔
      (∀ before, before <+: ts → before.count .closeParen ≤ before.count .openParen) ∧
        ts.count .closeParen < ts.count .openParen) ∧
    ((∃ post, (toPostorder .drain ts).result = .ok post) ↔ Token.leftOpen 0 ts = 0) ∧
    (∀ e, (toPostorder .drain ts).result = .error e ↔
      Token.leftOpen 0 ts ≠ 0 ∧ e = .unclosedOpen) ∧
    (∀ policy, acceptance (toPostorder policy ts) =
      acceptance (toPostorder policy (Token.parentheses ts))) ∧
    RuleError.message .strayClose = "Unbalanced parentheses: ')' without matching '('" ∧
    RuleError.message .unclosedOpen = "Unbalanced parentheses: '(' is never closed" := by
  have hcount := Token.leftOpen_add_count 0 ts
  have hstrays := @Token.strays_eq_zero_iff 0 ts
  simp only [Nat.zero_add] at hcount hstrays
  refine ⟨exists_toPostorder_reject_iff.trans Token.balanced_iff_count,
    toPostorder_reject_eq_strayClose_iff.trans Token.strays_ne_zero_iff, ?_,
    exists_toPostorder_drain_iff, fun e => toPostorder_drain_eq_error_iff,
    fun policy => acceptance_parentheses policy ts, rfl, rfl⟩
  rw [toPostorder_reject_eq_unclosedOpen_iff, ← hstrays]
  refine and_congr_right fun h => ?_
  omega

end Rulebook
