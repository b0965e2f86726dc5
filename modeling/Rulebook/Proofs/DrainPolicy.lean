import Rulebook.Proofs.Nesting

/-! # What draining means

Under the draining policy a stray `)` releases all that waits.  It does so as if a parenthesis had
been opened for it in advance, in front of the whole list: with one `(` more in front for every
stray `)`, the rejecting policy gives the same answer (`drain_opens_in_advance`).

The two runs are compared token by token.  The stack of the second one has the parentheses opened in
advance at its bottom, and as many of them as there are strays still to come (`run_advance`).  A
connective never reaches them (`release_append_openParen`); a `)` reaches the first of them exactly
if it is stray (`step_advance`).  Without them the rejecting policy stops at the first stray `)`
(`run_reject_of_strays`), so the policies differ on no other lists than those with strays.
-/
namespace Rulebook

namespace Reordering

open Token

/-- What a connective releases does not depend on parentheses at the bottom of the stack. -/
theorem release_append_openParen (c : Connective) (output : List Token) (waiting : List Waiting)
    (k : Nat) :
    release c output (waiting ++ List.replicate k .openParen) =
      ((release c output waiting).1,
        (release c output waiting).2 ++ List.replicate k .openParen) := by
  fun_induction release c output waiting with
  | case1 output top rest h =>
    have hguards : Guards c (.connective top :: (rest ++ List.replicate k .openParen)) := h
    exact release_of_guards hguards output
  | case2 output top rest h ih =>
    rw [List.cons_append, release, if_neg h]
    exact ih
  | case3 output rest hrest =>
    refine release_of_guards ?_ output
    cases rest with
    | nil => cases k <;> trivial
    | cons top rest =>
      cases top with
      | openParen => trivial
      | connective top => exact (hrest top rest rfl).elim

/-- **One token**, read under both policies.  The rejecting one starts with one parenthesis more at
the bottom of its stack if the token is a stray `)`, and has used it up then. -/
theorem step_advance (t : Token) (output : List Token) (waiting : List Waiting) :
    ∃ (output' : List Token) (waiting' : List Waiting),
      depth waiting' = depthAfter (depth waiting) t ∧
      (∀ n, step .drain ⟨output, waiting, n⟩ t =
        .ok ⟨output', waiting', n + stray (depth waiting) t⟩) ∧
      ∀ k n, step .reject
          ⟨output, waiting ++ List.replicate (k + stray (depth waiting) t) .openParen, n⟩ t =
        .ok ⟨output', waiting' ++ List.replicate k .openParen, n⟩ := by
  cases t with
  | condition text => exact ⟨.condition text :: output, waiting, rfl, fun _ => rfl, fun _ _ => rfl⟩
  | openParen =>
    exact ⟨output, .openParen :: waiting, depth_cons_openParen waiting, fun _ => rfl,
      fun _ _ => rfl⟩
  | connective c =>
    refine ⟨(release c output waiting).1, .connective c :: (release c output waiting).2, ?_,
      fun _ => rfl, ?_⟩
    · rw [depth_cons_connective, depth_release]
      rfl
    · intro k n
      rw [stray_of_ne (by simp), Nat.add_zero, step, release_append_openParen]
      rfl
  | closeParen =>
    rcases exists_waiting waiting with ⟨cs, rest, rfl⟩ | ⟨cs, rfl⟩
    · -- a parenthesis of the list is closed, the same one under both policies
      have hd : depth (cs.map .connective ++ .openParen :: rest) = depth rest + 1 := by simp
      refine ⟨(cs.map .connective).reverse ++ output, rest, ?_, ?_, ?_⟩
      · rw [hd]
        rfl
      · intro n
        rw [hd, stray_succ, step_closeParen_openParen]
        rfl
      · intro k n
        rw [hd, stray_succ, List.append_assoc, List.cons_append, step_closeParen_openParen]
        rfl
    · -- nothing is open, so the rejecting policy closes a parenthesis opened in advance
      have hd : depth (cs.map .connective) = 0 := by simpa using depth_connectives_append cs []
      refine ⟨(cs.map .connective).reverse ++ output, [], ?_, ?_, ?_⟩
      · rw [hd]
        rfl
      · intro n
        rw [hd, stray_closeParen_zero, step_closeParen_drain]
      · intro k n
        rw [hd, stray_closeParen_zero, List.replicate_succ, step_closeParen_openParen]
        rfl

/-- **A whole list**, read under both policies.  The rejecting one starts with as many parentheses
at the bottom of its stack as the list has stray `)`, and none of them is left at the end. -/
theorem run_advance (ts : List Token) (output : List Token) (waiting : List Waiting) :
    ∃ (output' : List Token) (waiting' : List Waiting),
      depth waiting' = leftOpen (depth waiting) ts ∧
      (∀ n, run .drain ⟨output, waiting, n⟩ ts =
        .ok ⟨output', waiting', n + Token.strays (depth waiting) ts⟩) ∧
      ∀ n, run .reject
          ⟨output, waiting ++ List.replicate (Token.strays (depth waiting) ts) .openParen, n⟩ ts =
        .ok ⟨output', waiting', n⟩ := by
  induction ts generalizing output waiting with
  | nil => exact ⟨output, waiting, rfl, fun _ => rfl, fun n => by rw [Token.strays]; simp [run]⟩
  | cons t ts ih =>
    obtain ⟨output₁, waiting₁, hdepth, hdrain, hreject⟩ := step_advance t output waiting
    obtain ⟨output₂, waiting₂, hdepth', hdrain', hreject'⟩ := ih output₁ waiting₁
    rw [hdepth] at hdepth' hdrain' hreject'
    refine ⟨output₂, waiting₂, hdepth', ?_, ?_⟩
    · intro n
      rw [run, hdrain]
      exact (hdrain' _).trans (by rw [Token.strays, Nat.add_assoc, Nat.add_comm (stray _ t)])
    · intro n
      rw [run, Token.strays, hreject]
      exact hreject' n

/-- The rejecting policy stops at the first stray `)`. -/
theorem run_reject_of_strays {ts output : List Token} {waiting : List Waiting} {n : Nat}
    (h : Token.strays (depth waiting) ts ≠ 0) :
    run .reject ⟨output, waiting, n⟩ ts = .error .strayClose := by
  induction ts generalizing output waiting with
  | nil => exact absurd rfl h
  | cons t ts ih =>
    by_cases ht : t = .closeParen ∧ depth waiting = 0
    · obtain ⟨rfl, hd⟩ := ht
      rcases exists_waiting waiting with ⟨cs, rest, rfl⟩ | ⟨cs, rfl⟩
      · simp at hd
      · rw [run, step_closeParen_reject]
        rfl
    · -- what is read before the first stray `)` is read as under the draining policy
      have hs : stray (depth waiting) t = 0 := if_neg ht
      obtain ⟨output', waiting', hdepth, -, hreject⟩ := step_advance t output waiting
      have hr := hreject 0 n
      rw [hs, Nat.add_zero, List.replicate_zero, List.append_nil, List.append_nil] at hr
      rw [Token.strays, hs, Nat.add_zero, ← hdepth] at h
      rw [run, hr]
      exact ih h

/-- Parentheses in front of a list wait at the bottom of the stack. -/
theorem run_replicate_openParen (policy : ParenPolicy) (k : Nat) (waiting : List Waiting)
    (ts : List Token) :
    run policy ⟨[], waiting, 0⟩ (List.replicate k .openParen ++ ts) =
      run policy ⟨[], List.replicate k .openParen ++ waiting, 0⟩ ts := by
  induction k generalizing waiting with
  | zero => rfl
  | succ k ih =>
    rw [List.replicate_succ, List.cons_append, run, step, Except.bind, ih, ← List.singleton_append,
      ← List.append_assoc, ← List.replicate_succ', List.replicate_succ]

/-- What is left waiting at the end is put out, unless a parenthesis is among it. -/
theorem finish_cases (r : Reordering) :
    (∃ post, r.finish = .ok post) ∨ r.finish = .error .unclosedOpen := by
  unfold finish
  split
  · exact .inl ⟨_, rfl⟩
  · exact .inr rfl

end Reordering

open Reordering Token

theorem toPostorder_of_run {policy : ParenPolicy} {ts : List Token} {r : Reordering}
    (h : start.run policy ts = .ok r) :
    toPostorder policy ts = ⟨List.replicate r.strays .strayDrained, r.finish⟩ := by
  rw [toPostorder, h]

theorem toPostorder_reject_of_strays {ts : List Token} (h : Token.strays 0 ts ≠ 0) :
    toPostorder .reject ts = ⟨[], .error .strayClose⟩ := by
  have hr : run .reject start ts = .error .strayClose := run_reject_of_strays h
  rw [toPostorder, hr]

/-- Under either policy a list is put into the same post-order, with a `(` in front for every stray
`)` under the rejecting one. -/
theorem exists_toPostorder (ts : List Token) :
    ∃ r : Reordering,
      toPostorder .drain ts = ⟨List.replicate (Token.strays 0 ts) .strayDrained, r.finish⟩ ∧
      toPostorder .reject (List.replicate (Token.strays 0 ts) .openParen ++ ts) =
        ⟨[], r.finish⟩ := by
  obtain ⟨output, waiting, -, hdrain, hreject⟩ := run_advance ts [] []
  refine ⟨⟨output, waiting, 0⟩, ?_, ?_⟩
  · have h := toPostorder_of_run (hdrain 0)
    rw [Nat.zero_add] at h
    exact h
  · have hfront := run_replicate_openParen .reject (Token.strays 0 ts) [] ts
    rw [List.append_nil] at hfront
    exact toPostorder_of_run (hfront.trans (hreject 0))

/-- **Draining is opening a parenthesis in advance for every stray `)`.**  Both runs give the same
list, or both find a parenthesis that is never closed; the draining one reports every stray `)`.
So what the rejecting policy accepts is put into the same list by the draining one, without a
report, and the answers of the two policies differ exactly on the lists with a stray `)`. -/
theorem drain_opens_in_advance (ts : List Token) :
    (toPostorder .drain ts).result =
        (toPostorder .reject (List.replicate (Token.strays 0 ts) .openParen ++ ts)).result ∧
      ((∃ post, (toPostorder .drain ts).result = .ok post) ∨
        (toPostorder .drain ts).result = .error .unclosedOpen) ∧
      (toPostorder .drain ts).events = List.replicate (Token.strays 0 ts) .strayDrained ∧
      (∀ post, (toPostorder .reject ts).result = .ok post →
        toPostorder .drain ts = ⟨[], .ok post⟩) ∧
      ((toPostorder .drain ts).result ≠ (toPostorder .reject ts).result ↔
        Token.strays 0 ts ≠ 0) := by
  obtain ⟨r, hdrain, hreject⟩ := exists_toPostorder ts
  have hsame : Token.strays 0 ts = 0 → toPostorder .drain ts = toPostorder .reject ts := by
    intro h
    rw [h] at hdrain hreject
    exact hdrain.trans hreject.symm
  refine ⟨by rw [hdrain, hreject], ?_, by rw [hdrain], ?_, ?_⟩
  · rw [hdrain]
    exact finish_cases r
  · intro post hpost
    have h0 : Token.strays 0 ts = 0 := Decidable.byContradiction fun h => by
      rw [toPostorder_reject_of_strays h] at hpost
      cases hpost
    rw [h0] at hdrain
    rw [← hsame h0, hdrain] at hpost
    rw [hdrain, show r.finish = .ok post from hpost]
    rfl
  · constructor
    · intro hne h
      exact hne (by rw [hsame h])
    · intro h heq
      -- a stray `)` is an error of its own, which draining never gives
      rw [toPostorder_reject_of_strays h, hdrain] at heq
      rcases finish_cases r with ⟨post, hr⟩ | hr
      · cases hr.symm.trans heq
      · cases hr.symm.trans heq

/-- The tokens of `a OR b) AND (c OR d)) OR e`, in which two `)` are stray. -/
def twoStrays : List Token :=
  [.condition "a", .connective .or, .condition "b", .closeParen, .connective .and, .openParen,
    .condition "c", .connective .or, .condition "d", .closeParen, .closeParen, .connective .or,
    .condition "e"]

/-- The strays of `twoStrays` decide the grouping: it is that of `((a OR b) AND (c OR d)) OR e`,
which the rejecting policy accepts. -/
theorem drain_opens_in_advance_twoStrays :
    Token.strays 0 twoStrays = 2 ∧
      (toPostorder .drain twoStrays).result =
        (toPostorder .reject (.openParen :: .openParen :: twoStrays)).result ∧
      toPostorder .drain (.openParen :: .openParen :: twoStrays) =
        ⟨[], .ok [.condition "a", .condition "b", .connective .or, .condition "c", .condition "d",
          .connective .or, .connective .and, .condition "e", .connective .or]⟩ ∧
      (toPostorder .drain twoStrays).result ≠ (toPostorder .reject twoStrays).result := by
  have hs : Token.strays 0 twoStrays = 2 := by decide
  refine ⟨hs, ?_, ?_, ?_⟩
  · have h := (drain_opens_in_advance twoStrays).1
    rw [hs] at h
    exact h
  · exact (drain_opens_in_advance (.openParen :: .openParen :: twoStrays)).2.2.2.1 _ rfl
  · exact (drain_opens_in_advance twoStrays).2.2.2.2.mpr (by rw [hs]; decide)

end Rulebook
