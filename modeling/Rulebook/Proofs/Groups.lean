import Rulebook.Proofs.Acceptance

/-! # A group stands for a condition

A group is a list in parentheses that the rejecting policy accepts by itself.  From every state it
puts out its own post-order list and leaves what waits as it was (`Reordering.run_group`), just as a
condition puts out itself.  So putting groups in place of a condition, before or after reordering,
is the same (`toPostorder_substitute`): the machine never looks at what it has put out
(`Reordering.release_substituted`, `Reordering.close_substituted`).

The builder treats the listing of a tree as it treats a condition: it pushes one tree.  So putting
listings in place of a condition, and the tree in place of the leaf, is the same too
(`Tree.ofPostorder_substitute`).

Neither fact asks what stands around the groups.  `group_stands_for_condition` is the case of one
group, in place of a condition that occurs nowhere else.
-/
namespace Rulebook

/-! ## Putting tokens in place of a condition -/

namespace Token

/-- A list in parentheses. -/
def grouped (ts : List Token) : List Token := .openParen :: (ts ++ [.closeParen])

/-- The tokens with `us` in place of every condition `x`. -/
def substitute (x : String) (us ts : List Token) : List Token :=
  ts.flatMap fun t => if t = .condition x then us else [t]

variable {x : String} {us : List Token}

@[simp] theorem substitute_nil : substitute x us [] = [] := rfl

@[simp] theorem substitute_append (ts ts' : List Token) :
    substitute x us (ts ++ ts') = substitute x us ts ++ substitute x us ts' :=
  List.flatMap_append

@[simp] theorem substitute_cons_self (ts : List Token) :
    substitute x us (.condition x :: ts) = us ++ substitute x us ts := by
  simp [substitute]

theorem substitute_cons_of_ne {t : Token} (h : t ≠ .condition x) (ts : List Token) :
    substitute x us (t :: ts) = t :: substitute x us ts := by
  simp [substitute, h]

theorem substitute_of_not_mem {ts : List Token} (h : .condition x ∉ ts) :
    substitute x us ts = ts := by
  induction ts with
  | nil => rfl
  | cons t ts ih =>
    rw [List.mem_cons, not_or] at h
    rw [substitute_cons_of_ne (Ne.symm h.1), ih h.2]

/-- One occurrence is replaced where it stands. -/
theorem substitute_between {before after : List Token} (hbefore : .condition x ∉ before)
    (hafter : .condition x ∉ after) :
    substitute x us (before ++ .condition x :: after) = before ++ (us ++ after) := by
  rw [substitute_append, substitute_cons_self, substitute_of_not_mem hbefore,
    substitute_of_not_mem hafter]

theorem count_conditions (x : String) (ts : List Token) :
    (conditions ts).count x = ts.count (.condition x) := by
  induction ts with
  | nil => rfl
  | cons t ts ih => cases t <;> simp [List.count_cons, ih]

end Token

/-! ## Reordering -/

namespace Reordering

variable {policy : ParenPolicy} {x : String} {us : List Token}

/-- What is put out, the latest first, with `us` in place of every condition `x`. -/
def substituted (x : String) (us output : List Token) : List Token :=
  (Token.substitute x us output.reverse).reverse

theorem substituted_cons_self (output : List Token) :
    substituted x us (.condition x :: output) = us.reverse ++ substituted x us output := by
  simp [substituted]

theorem substituted_cons_of_ne {t : Token} (h : t ≠ .condition x) (output : List Token) :
    substituted x us (t :: output) = t :: substituted x us output := by
  simp [substituted, Token.substitute_cons_of_ne h]

theorem release_substituted (c : Connective) (output : List Token) (waiting : List Waiting) :
    release c (substituted x us output) waiting =
      (substituted x us (release c output waiting).1, (release c output waiting).2) := by
  induction waiting generalizing output with
  | nil => rfl
  | cons w waiting ih =>
    cases w with
    | openParen => rfl
    | connective top =>
      rw [release, release]
      split
      · rfl
      · rw [← ih, substituted_cons_of_ne (by simp)]

theorem close_substituted (output : List Token) (waiting : List Waiting) :
    close (substituted x us output) waiting =
      (substituted x us (close output waiting).1, (close output waiting).2) := by
  induction waiting generalizing output with
  | nil => rfl
  | cons w waiting ih =>
    cases w with
    | openParen => rfl
    | connective c => rw [close, close, ← ih, substituted_cons_of_ne (by simp)]

/-- The state with `us` put out in place of every condition `x`. -/
def substitute (x : String) (us : List Token) (r : Reordering) : Reordering :=
  ⟨substituted x us r.output, r.waiting, r.strays⟩

theorem step_substitute {t : Token} (h : t ≠ .condition x) (r : Reordering) :
    step policy (r.substitute x us) t = (step policy r t).map (substitute x us) := by
  cases t with
  | condition text => simp [step, substitute, substituted_cons_of_ne h, Except.map]
  | openParen => rfl
  | connective c =>
    simp only [step, substitute, release_substituted]
    rfl
  | closeParen =>
    simp only [step, substitute, close_substituted]
    rcases close r.output r.waiting with ⟨output, _ | waiting⟩
    · cases policy <;> rfl
    · rfl

theorem finish_substitute (r : Reordering) :
    (r.substitute x us).finish = r.finish.map (Token.substitute x us) := by
  simp only [finish, substitute, close_substituted]
  rcases close r.output r.waiting with ⟨output, _ | waiting⟩
  · simp [Except.map, substituted]
  · rfl

/-- A group puts out its own list and leaves the rest of the state alone. -/
theorem run_group {xs px : List Token} (h : (toPostorder .reject xs).result = .ok px)
    (policy : ParenPolicy) (output : List Token) (waiting : List Waiting) (strays : Nat) :
    run policy ⟨output, waiting, strays⟩ (Token.grouped xs) =
      .ok ⟨px.reverse ++ output, waiting, strays⟩ := by
  obtain ⟨a, rfl, rfl⟩ := Infix.toPostorder_reject_eq_ok_iff.mp h
  rw [← a.emitted_append_pending]
  exact (Infix.Arrangement.group .vacant a).run_tokens policy output waiting strays trivial

/-- **Reading groups** in place of a condition puts out their lists in place of it. -/
theorem run_substitute {xs px : List Token} (h : (toPostorder .reject xs).result = .ok px)
    (r : Reordering) (ts : List Token) :
    run policy (r.substitute x px) (Token.substitute x (Token.grouped xs) ts) =
      (run policy r ts).map (substitute x px) := by
  induction ts generalizing r with
  | nil => rfl
  | cons t ts ih =>
    by_cases ht : t = .condition x
    · subst ht
      rw [Token.substitute_cons_self, run_append, substitute, run_group h,
        ← substituted_cons_self]
      exact ih ⟨.condition x :: r.output, r.waiting, r.strays⟩
    · rw [Token.substitute_cons_of_ne ht, run, run, step_substitute ht]
      cases step policy r t with
      | error e => rfl
      | ok next => exact ih next

end Reordering

open Reordering

/-- **Reordering commutes with putting groups in place of a condition.** -/
theorem toPostorder_substitute {xs px : List Token} (h : (toPostorder .reject xs).result = .ok px)
    (policy : ParenPolicy) (x : String) (ts : List Token) :
    (toPostorder policy (Token.substitute x (Token.grouped xs) ts)).result =
        (toPostorder policy ts).result.map (Token.substitute x px) ∧
      (toPostorder policy (Token.substitute x (Token.grouped xs) ts)).events =
        (toPostorder policy ts).events := by
  have hrun : run policy start (Token.substitute x (Token.grouped xs) ts) =
      (run policy start ts).map (substitute x px) := run_substitute h start ts
  rw [toPostorder, toPostorder, hrun]
  cases run policy start ts with
  | error e => exact ⟨rfl, rfl⟩
  | ok r => exact ⟨finish_substitute r, rfl⟩

/-! ## Building -/

namespace Tree

/-- A tree with `t` in place of every leaf `x`. -/
def substitute (x : String) (t : Tree) : Tree → Tree
  | .leaf text => if text = x then t else .leaf text
  | .node c left right => .node c (substitute x t left) (substitute x t right)

variable {x : String} {t : Tree}

theorem assembleStep_substitute {token : Token} (h : token ≠ .condition x) (stack : List Tree) :
    assembleStep (stack.map (substitute x t)) token =
      (assembleStep stack token).map (List.map (substitute x t)) := by
  cases token with
  | openParen => rfl
  | closeParen => rfl
  | condition text =>
    have htext : text ≠ x := fun heq => h (congrArg Token.condition heq)
    simp [assembleStep, Except.map, substitute, htext]
  | connective c =>
    match stack with
    | [] => rfl
    | [_] => rfl
    | _ :: _ :: _ => rfl

/-- **Reading listings** of `t` in place of a condition pushes `t` in place of its leaf. -/
theorem assembleFrom_substitute (stack : List Tree) (ts : List Token) :
    assembleFrom (stack.map (substitute x t)) (Token.substitute x t.postorder ts) =
      (assembleFrom stack ts).map (List.map (substitute x t)) := by
  induction ts generalizing stack with
  | nil => rfl
  | cons token ts ih =>
    by_cases htoken : token = .condition x
    · subst htoken
      have hleaf : substitute x t (.leaf x) = t := if_pos rfl
      have hnext := ih (.leaf x :: stack)
      rw [List.map_cons, hleaf] at hnext
      rw [Token.substitute_cons_self, assembleFrom_postorder, hnext]
      rfl
    · rw [Token.substitute_cons_of_ne htoken, assembleFrom, assembleFrom,
        assembleStep_substitute htoken]
      cases assembleStep stack token with
      | error e => rfl
      | ok next => exact ih next

/-- **Building commutes with putting the listing of a tree in place of a condition.** -/
theorem ofPostorder_substitute (x : String) (t : Tree) (ts : List Token) :
    ofPostorder (Token.substitute x t.postorder ts) = (ofPostorder ts).map (substitute x t) := by
  have h : assembleFrom [] (Token.substitute x t.postorder ts) =
      (assembleFrom [] ts).map (List.map (substitute x t)) := assembleFrom_substitute [] ts
  rw [ofPostorder, ofPostorder, h]
  rcases assembleFrom [] ts with e | _ | ⟨first, _ | ⟨second, rest⟩⟩
  · rfl
  · rfl
  · rfl
  · simp [Except.map]

end Tree

/-- Every condition is put out as often as it is read. -/
theorem count_toPostorder {policy : ParenPolicy} {ts post : List Token}
    (h : (toPostorder policy ts).result = .ok post) (x : String) :
    post.count (.condition x) = ts.count (.condition x) := by
  rw [← Token.count_conditions, ← Token.count_conditions, conditions_toPostorder h]

/-- **A group stands for a condition.**  Among any tokens, balanced or not, and under either policy,
a group is reordered as a condition `x` in its place would be: to the same list with the list of the
group where `x` stands, or to the same error, and with the same reports.  If a tree is built from
the list of the group, then building gives the same tree with that tree where the leaf `x` stands,
or the same error. -/
theorem group_stands_for_condition {xs px : List Token} {x : String} {before after : List Token}
    (hxs : (toPostorder .reject xs).result = .ok px) (hbefore : .condition x ∉ before)
    (hafter : .condition x ∉ after) (policy : ParenPolicy) :
    (toPostorder policy (before ++ (Token.grouped xs ++ after))).result =
        (toPostorder policy (before ++ .condition x :: after)).result.map
          (Token.substitute x px) ∧
      (toPostorder policy (before ++ (Token.grouped xs ++ after))).events =
        (toPostorder policy (before ++ .condition x :: after)).events ∧
      (∀ post, (toPostorder policy (before ++ .condition x :: after)).result = .ok post →
        post.count (.condition x) = 1 ∧
          ∀ s, Tree.ofPostorder post = .ok s → s.leaves.count x = 1) ∧
      ∀ t, Tree.ofPostorder px = .ok t →
        (toPostorder policy (before ++ (Token.grouped xs ++ after))).result.bind
            Tree.ofPostorder =
          ((toPostorder policy (before ++ .condition x :: after)).result.bind
            Tree.ofPostorder).map (Tree.substitute x t) := by
  obtain ⟨hresult, hevents⟩ :=
    toPostorder_substitute hxs policy x (before ++ .condition x :: after)
  rw [Token.substitute_between hbefore hafter] at hresult hevents
  refine ⟨hresult, hevents, ?_, ?_⟩
  · intro post hpost
    have hcount : post.count (.condition x) = 1 := by
      rw [count_toPostorder hpost, List.count_append, List.count_cons_self,
        List.count_eq_zero.mpr hbefore, List.count_eq_zero.mpr hafter]
    refine ⟨hcount, fun s hs => ?_⟩
    rw [Tree.leaves_of_ofPostorder hs, Token.count_conditions, hcount]
  · intro t ht
    obtain rfl := Tree.ofPostorder_eq_ok_iff.mp ht
    rw [hresult]
    cases (toPostorder policy (before ++ .condition x :: after)).result with
    | error e => rfl
    | ok post => exact Tree.ofPostorder_substitute x t post

/-- The group `(b OR c)` among tokens that are not balanced: in `a) AND (b OR c)) OR d`, where two
`)` are drained, it is an operand of `AND`; in `(AND (b OR c)`, where a `(` stays open, and in
`AND (b OR c)`, where `AND` has one operand, the errors are those of a condition in its place. -/
theorem group_stands_for_condition_unbalanced :
    (toPostorder .reject [.condition "b", .connective .or, .condition "c"]).result =
        .ok [.condition "b", .condition "c", .connective .or] ∧
      (toPostorder .drain ([.condition "a", .closeParen, .connective .and] ++
          (Token.grouped [.condition "b", .connective .or, .condition "c"] ++
            [.closeParen, .connective .or, .condition "d"]))).result.bind Tree.ofPostorder =
        .ok (.node .or (.node .and (.leaf "a") (.node .or (.leaf "b") (.leaf "c"))) (.leaf "d")) ∧
      (toPostorder .drain ([.openParen, .connective .and] ++
          (Token.grouped [.condition "b", .connective .or, .condition "c"] ++ []))).result =
        .error .unclosedOpen ∧
      (toPostorder .reject ([.connective .and] ++
          (Token.grouped [.condition "b", .connective .or, .condition "c"] ++ []))).result.bind
            Tree.ofPostorder =
        .error (.lacksOperands .and) := by
  have hxs : (toPostorder .reject [.condition "b", .connective .or, .condition "c"]).result =
      .ok [.condition "b", .condition "c", .connective .or] := rfl
  refine ⟨hxs, ?_, ?_, ?_⟩
  · exact ((group_stands_for_condition (x := "x") hxs (by decide) (by decide) .drain).2.2.2 _
      rfl).trans rfl
  · exact (group_stands_for_condition (x := "x") hxs (by decide) (by decide) .drain).1.trans rfl
  · exact ((group_stands_for_condition (x := "x") hxs (by decide) (by decide) .reject).2.2.2 _
      rfl).trans rfl

end Rulebook
