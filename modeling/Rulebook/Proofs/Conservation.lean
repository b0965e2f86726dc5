import Rulebook.Proofs.Nesting
import Rulebook.Proofs.TreeFold

/-! # Nothing is lost and nothing is invented

While tokens are read, those put out and the connectives that wait are together a permutation of the
conditions and connectives read so far (`Reordering.perm_run`): what is released moves from the
stack to the output, and a parenthesis is never put out.  At the end nothing waits any more, so a
post-order list is a permutation of the list it was made of, less the parentheses
(`toPostorder_perm`).  The conditions even stay in their order (`conditions_toPostorder`).

The builder takes every token into the one tree that it leaves (`Tree.ofPostorder_eq_ok_iff`).  A
tree has one leaf more than it has connectives, and no way in it is longer than it has leaves
(`Tree.depth_le_leafCount`).  None of this asks whether the tokens are infix, or whether a `)` was
drained.
-/
namespace Rulebook

/-! ## Reordering -/

namespace Token

theorem withoutParentheses_append (ts us : List Token) :
    withoutParentheses (ts ++ us) = withoutParentheses ts ++ withoutParentheses us :=
  List.filter_append _ _

@[simp] theorem connectives_withoutParentheses (ts : List Token) :
    connectives (withoutParentheses ts) = connectives ts := by
  induction ts with
  | nil => rfl
  | cons t ts ih => cases t <;> simpa [withoutParentheses, isParenthesis, connectives] using ih

theorem ne_parenthesis_of_mem {t : Token} {ts : List Token} (h : t ∈ withoutParentheses ts) :
    t ≠ .openParen ∧ t ≠ .closeParen := by
  obtain ⟨-, ht⟩ := List.mem_filter.mp h
  constructor <;> rintro rfl <;> cases ht

end Token

namespace Reordering

variable {policy : ParenPolicy}

/-- The connectives that wait, as tokens. -/
def waitingTokens (waiting : List Waiting) : List Token :=
  waiting.filterMap fun
    | .connective c => some (.connective c)
    | .openParen => none

/-- What is put out and what waits, parentheses apart. -/
def held (output : List Token) (waiting : List Waiting) : List Token :=
  output ++ waitingTokens waiting

/-- It makes no difference whether a connective is put out or waits. -/
theorem perm_held_connective (c : Connective) (output : List Token) (waiting : List Waiting) :
    (held (.connective c :: output) waiting).Perm (held output (.connective c :: waiting)) :=
  List.perm_middle.symm

theorem perm_release (c : Connective) (output : List Token) (waiting : List Waiting) :
    (held (release c output waiting).1 (release c output waiting).2).Perm
      (held output waiting) := by
  fun_induction release c output waiting with
  | case1 => exact .refl _
  | case2 output top rest _ ih => exact ih.trans (perm_held_connective top output rest)
  | case3 => exact .refl _

theorem perm_close (output : List Token) (waiting : List Waiting) :
    (held (close output waiting).1 ((close output waiting).2.getD [])).Perm
      (held output waiting) := by
  fun_induction close output waiting with
  | case1 => exact .refl _
  | case2 => exact .refl _
  | case3 output c rest ih => exact ih.trans (perm_held_connective c output rest)

/-- A token is held from when it is read, unless it is a parenthesis. -/
theorem perm_step {r next : Reordering} {t : Token} (h : r.step policy t = .ok next) :
    (held next.output next.waiting).Perm
      (held r.output r.waiting ++ Token.withoutParentheses [t]) := by
  cases t with
  | condition text =>
    obtain rfl := Except.ok.inj h
    exact (List.perm_append_singleton _ _).symm
  | openParen =>
    obtain rfl := Except.ok.inj h
    exact .of_eq (List.append_nil _).symm
  | connective c =>
    obtain rfl := Except.ok.inj h
    have hrelease := (perm_release c r.output r.waiting).cons (.connective c)
    exact (perm_held_connective c _ _).symm.trans
      (hrelease.trans (List.perm_append_singleton _ _).symm)
  | closeParen =>
    obtain ⟨houtput, hwaiting⟩ := step_closeParen_eq_ok h
    have hnone : Token.withoutParentheses [.closeParen] = [] := rfl
    rw [houtput, hwaiting, hnone, List.append_nil]
    exact perm_close r.output r.waiting

/-- **What is held** is a permutation of the conditions and connectives read. -/
theorem perm_run {r next : Reordering} {ts : List Token} (h : r.run policy ts = .ok next) :
    (held next.output next.waiting).Perm
      (held r.output r.waiting ++ Token.withoutParentheses ts) := by
  induction ts generalizing r with
  | nil =>
    obtain rfl := Except.ok.inj h
    exact .of_eq (List.append_nil _).symm
  | cons t ts ih =>
    obtain ⟨mid, hs, h⟩ := except_bind_eq_ok_iff.mp h
    have hmid := (perm_step hs).append_right (Token.withoutParentheses ts)
    rw [List.append_assoc, ← Token.withoutParentheses_append] at hmid
    exact (ih h).trans hmid

end Reordering

open Reordering

/-- **A post-order list is a permutation** of the conditions and connectives it was made of. -/
theorem toPostorder_perm {policy : ParenPolicy} {ts post : List Token}
    (h : (toPostorder policy ts).result = .ok post) :
    post.Perm (Token.withoutParentheses ts) := by
  obtain ⟨r, hr, hclose⟩ := exists_run_of_toPostorder h
  have hheld := perm_close r.output r.waiting
  rw [hclose, held, waitingTokens, Option.getD_none, List.filterMap_nil, List.append_nil] at hheld
  exact (List.reverse_perm post).symm.trans (hheld.trans (perm_run hr))

theorem connectives_toPostorder {policy : ParenPolicy} {ts post : List Token}
    (h : (toPostorder policy ts).result = .ok post) :
    (Token.connectives post).Perm (Token.connectives ts) := by
  rw [← Token.connectives_withoutParentheses ts]
  exact (toPostorder_perm h).filterMap _

/-! ## Building -/

namespace Tree

/-- The connectives of the inner nodes of a tree, in post-order. -/
def connectives : Tree → List Connective
  | .leaf _ => []
  | .node c left right => left.connectives ++ right.connectives ++ [c]

theorem connectives_postorder (t : Tree) : Token.connectives t.postorder = t.connectives := by
  induction t with
  | leaf text => rfl
  | node c left right ihl ihr => simp [postorder, connectives, ihl, ihr]

theorem leafCount_eq_length_leaves (t : Tree) : t.leafCount = t.leaves.length := by
  induction t with
  | leaf text => simp
  | node c left right ihl ihr => simp [ihl, ihr]

theorem leafCount_pos (t : Tree) : 0 < t.leafCount := by
  induction t with
  | leaf text => simp
  | node c left right ihl ihr =>
    rw [leafCount_node]
    omega

/-- No way from the root to a leaf is longer than there are leaves. -/
theorem depth_le_leafCount (t : Tree) : t.depth ≤ t.leafCount := by
  induction t with
  | leaf text => simp
  | node c left right ihl ihr =>
    have hl := left.leafCount_pos
    have hr := right.leafCount_pos
    rw [depth_node, leafCount_node]
    omega

end Tree

/-! ## Both together -/

/-- **Compiling loses nothing, doubles nothing and changes no order.**  Whatever the tokens, and
under either policy: a post-order list holds no parenthesis, the conditions of the tokens in their
order, and the connectives of the tokens in some order.  If a tree is built from it, the leaves of
the tree are these conditions in their order, as many as it counts; the tokens have one connective
less; the connectives of the tree are those of the tokens; and the tree is at most as deep as it has
leaves. -/
theorem compiling_conserves {policy : ParenPolicy} {ts post : List Token}
    (h : (toPostorder policy ts).result = .ok post) :
    (∀ t ∈ post, t ≠ .openParen ∧ t ≠ .closeParen) ∧
      Token.conditions post = Token.conditions ts ∧
      (Token.connectives post).Perm (Token.connectives ts) ∧
      ∀ t, Tree.ofPostorder post = .ok t →
        t.leaves = Token.conditions ts ∧
        t.leafCount = (Token.conditions ts).length ∧
        (Token.connectives ts).length + 1 = (Token.conditions ts).length ∧
        t.connectives.Perm (Token.connectives ts) ∧
        t.depth ≤ (Token.conditions ts).length := by
  have hconditions := conditions_toPostorder h
  have hconnectives := connectives_toPostorder h
  refine ⟨?_, hconditions, hconnectives, ?_⟩
  · intro t ht
    exact Token.ne_parenthesis_of_mem ((toPostorder_perm h).mem_iff.mp ht)
  · intro t ht
    have hleaves : t.leaves = Token.conditions ts :=
      (Tree.leaves_of_ofPostorder ht).trans hconditions
    have hcount : t.leafCount = (Token.conditions ts).length := by
      rw [t.leafCount_eq_length_leaves, hleaves]
    obtain rfl := Tree.ofPostorder_eq_ok_iff.mp ht
    refine ⟨hleaves, hcount, ?_, ?_, hcount ▸ t.depth_le_leafCount⟩
    · rw [← hconnectives.length_eq, ← t.length_conditions_postorder, hconditions]
    · rw [← t.connectives_postorder]
      exact hconnectives

/-- The tokens of `a b AND) c OR`, where the connectives stand behind their operands and the `)` is
stray. -/
def connectivesBehind : List Token :=
  [.condition "a", .condition "b", .connective .and, .closeParen, .condition "c", .connective .or]

/-- Under the draining policy `connectivesBehind` compiles, to a tree with the three conditions and
the two connectives. -/
theorem compiling_conserves_connectivesBehind :
    ∃ post t, (toPostorder .drain connectivesBehind).result = .ok post ∧
      Tree.ofPostorder post = .ok t ∧ t.leaves = ["a", "b", "c"] ∧ t.leafCount = 3 ∧
      t.connectives.Perm [.and, .or] ∧ t.depth ≤ 3 := by
  have h : (toPostorder .drain connectivesBehind).result =
      .ok [.condition "a", .condition "b", .connective .and, .condition "c", .connective .or] := rfl
  have ht : Tree.ofPostorder
        [.condition "a", .condition "b", .connective .and, .condition "c", .connective .or] =
      .ok (.node .or (.node .and (.leaf "a") (.leaf "b")) (.leaf "c")) := rfl
  obtain ⟨hleaves, hcount, -, hconnectives, hdepth⟩ := (compiling_conserves h).2.2.2 _ ht
  exact ⟨_, _, h, ht, hleaves, hcount, hconnectives, hdepth⟩

end Rulebook
