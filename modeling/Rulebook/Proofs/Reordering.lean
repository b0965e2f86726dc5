import Rulebook.Proofs.TreeListing

/-! # Reading tokens into post-order

General facts about the reordering machine.  A list is read in pieces (`run_append`).  A connective
releases exactly the waiting connectives above what `Guards` it (`release_append`), and a closing
parenthesis, or the end of the list, releases all of them down to the parenthesis or to the bottom
(`close_append_openParen`, `close_connectives`).

No token is invented: whatever a run puts out, its conditions are those read, in their order
(`conditions_toPostorder`).  So the leaves of a compiled tree are the conditions of its tokens.
-/
namespace Rulebook

namespace Reordering

variable {policy : ParenPolicy}

theorem run_append (r : Reordering) (ts us : List Token) :
    r.run policy (ts ++ us) = (r.run policy ts).bind (run policy · us) := by
  induction ts generalizing r with
  | nil => rfl
  | cons t ts ih =>
    rw [List.cons_append, run, run]
    cases r.step policy t with
    | error e => rfl
    | ok next => exact ih next

/-! ## What is released -/

/-- What waits last is not released by the connective `c`: it is a parenthesis or binds more loosely
than `c`, or nothing waits. -/
def Guards (c : Connective) : List Waiting → Prop
  | .connective top :: _ => top.precedence < c.precedence
  | _ => True

theorem release_of_guards {c : Connective} {waiting : List Waiting} (h : Guards c waiting)
    (output : List Token) : release c output waiting = (output, waiting) := by
  match waiting, h with
  | [], _ => rfl
  | .openParen :: rest, _ => rfl
  | .connective top :: rest, h =>
    rw [release]
    exact if_pos h

/-- A connective releases the connectives that bind at least as tightly, down to what guards it. -/
theorem release_append {c : Connective} {cs : List Connective} {waiting : List Waiting}
    (hcs : ∀ d ∈ cs, c.precedence ≤ d.precedence) (hw : Guards c waiting) (output : List Token) :
    release c output (cs.map .connective ++ waiting) =
      ((cs.map .connective).reverse ++ output, waiting) := by
  induction cs generalizing output with
  | nil => exact release_of_guards hw output
  | cons d cs ih =>
    have hd : ¬ d.precedence < c.precedence := Nat.not_lt.mpr (hcs d List.mem_cons_self)
    rw [List.map_cons, List.cons_append, release, if_neg hd,
      ih (fun d' hd' => hcs d' (List.mem_cons_of_mem _ hd'))]
    simp

theorem close_append_openParen (cs : List Connective) (output : List Token)
    (waiting : List Waiting) :
    close output (cs.map .connective ++ .openParen :: waiting) =
      ((cs.map .connective).reverse ++ output, some waiting) := by
  induction cs generalizing output with
  | nil => rfl
  | cons d cs ih =>
    rw [List.map_cons, List.cons_append, close, ih]
    simp

theorem close_connectives (cs : List Connective) (output : List Token) :
    close output (cs.map .connective) = ((cs.map .connective).reverse ++ output, none) := by
  induction cs generalizing output with
  | nil => rfl
  | cons d cs ih =>
    rw [List.map_cons, close, ih]
    simp

/-- A `)` closes the latest parenthesis that waits, under either policy. -/
theorem step_closeParen_openParen (policy : ParenPolicy) (cs : List Connective)
    (output : List Token) (waiting : List Waiting) (strays : Nat) :
    step policy ⟨output, cs.map .connective ++ .openParen :: waiting, strays⟩ .closeParen =
      .ok ⟨(cs.map .connective).reverse ++ output, waiting, strays⟩ := by
  simp only [step, close_append_openParen]

theorem step_closeParen_drain (cs : List Connective) (output : List Token) (strays : Nat) :
    step .drain ⟨output, cs.map .connective, strays⟩ .closeParen =
      .ok ⟨(cs.map .connective).reverse ++ output, [], strays + 1⟩ := by
  simp only [step, close_connectives]

theorem step_closeParen_reject (cs : List Connective) (output : List Token) (strays : Nat) :
    step .reject ⟨output, cs.map .connective, strays⟩ .closeParen = .error .strayClose := by
  simp only [step, close_connectives]

/-- Whatever a `)` finds, it puts out what it releases, and what stood below stays. -/
theorem step_closeParen_eq_ok {r next : Reordering} (h : r.step policy .closeParen = .ok next) :
    next.output = (close r.output r.waiting).1 ∧
      next.waiting = (close r.output r.waiting).2.getD [] := by
  simp only [step] at h
  split at h
  · rename_i heq
    obtain rfl := Except.ok.inj h
    rw [heq]
    exact ⟨rfl, rfl⟩
  · cases h
  · rename_i heq
    obtain rfl := Except.ok.inj h
    rw [heq]
    exact ⟨rfl, rfl⟩

/-! ## The conditions put out -/

/-- The conditions put out so far, in their order. -/
def said (output : List Token) : List String := Token.conditions output.reverse

theorem said_cons (t : Token) (output : List Token) :
    said (t :: output) = said output ++ Token.conditions [t] := by
  rw [said, List.reverse_cons, Token.conditions_append]
  rfl

theorem said_release (c : Connective) (output : List Token) (waiting : List Waiting) :
    said (release c output waiting).1 = said output := by
  fun_induction release c output waiting with
  | case1 => rfl
  | case2 output top rest _ ih => rw [ih, said_cons]; simp
  | case3 => rfl

theorem said_close (output : List Token) (waiting : List Waiting) :
    said (close output waiting).1 = said output := by
  fun_induction close output waiting with
  | case1 => rfl
  | case2 => rfl
  | case3 output c rest ih => rw [ih, said_cons]; simp

/-- One token adds its condition, if it is one, to those put out. -/
theorem said_step {r next : Reordering} {t : Token} (h : r.step policy t = .ok next) :
    said next.output = said r.output ++ Token.conditions [t] := by
  cases t with
  | condition text =>
    obtain rfl := Except.ok.inj h
    exact said_cons _ _
  | openParen =>
    obtain rfl := Except.ok.inj h
    simp
  | connective c =>
    obtain rfl := Except.ok.inj h
    simpa using said_release c r.output r.waiting
  | closeParen =>
    -- what closes a parenthesis, or drains the stack, puts connectives out only
    rw [(step_closeParen_eq_ok h).1, said_close]
    simp

theorem said_run {r next : Reordering} {ts : List Token} (h : r.run policy ts = .ok next) :
    said next.output = said r.output ++ Token.conditions ts := by
  induction ts generalizing r with
  | nil =>
    obtain rfl := Except.ok.inj h
    simp
  | cons t ts ih =>
    obtain ⟨mid, hs, h⟩ := except_bind_eq_ok_iff.mp h
    rw [ih h, said_step hs, List.append_assoc, ← Token.conditions_append]
    rfl

end Reordering

open Reordering

/-- A list is put out if, once its tokens are read, no parenthesis waits. -/
theorem exists_run_of_toPostorder {policy : ParenPolicy} {ts post : List Token}
    (h : (toPostorder policy ts).result = .ok post) :
    ∃ r, start.run policy ts = .ok r ∧ close r.output r.waiting = (post.reverse, none) := by
  unfold toPostorder at h
  split at h
  · cases h
  · rename_i r hr
    refine ⟨r, hr, ?_⟩
    simp only [finish] at h
    split at h
    · rename_i output heq
      obtain rfl := Except.ok.inj h
      rw [heq, List.reverse_reverse]
    · cases h

/-- **Reordering keeps the conditions and their order.** -/
theorem conditions_toPostorder {policy : ParenPolicy} {ts post : List Token}
    (h : (toPostorder policy ts).result = .ok post) :
    Token.conditions post = Token.conditions ts := by
  obtain ⟨r, hr, hclose⟩ := exists_run_of_toPostorder h
  have hc := said_close r.output r.waiting
  rw [hclose, said, List.reverse_reverse] at hc
  exact hc.trans (said_run hr)

end Rulebook
