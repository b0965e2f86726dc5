import Mathlib.Data.List.Basic
import Rulebook.Proofs.CacheSoundness
import Rulebook.Tree.Document

/-! # Comparing two trees

`Tree.same` compares two trees pair by pair.  The pairs that have still to be compared wait on a
stack, and the comparison is left at the first pair whose roots differ.  What it is to find out is
said here without it: two trees *agree* (`Tree.Agree`) if the same ways lead down from both roots,
to leaves in both trees or to joined expressions in both, and what stands there is the same.

After `k` turns the pairs on the stack and the `k` pairs compared so far cover both trees
(`Tree.Pending`): a pair stands at one place of both trees, the nodes under the pairs are all nodes
but `k`, and the trees are equal exactly if the trees of every pair are.  This holds before the
first turn, and a turn either keeps it or ends the comparison (`Pending.step`).  At the end nothing
waits, so that the trees are equal, or two roots differ at one place.  Since each turn uses up a
node of both trees, the end comes no later than the smaller tree has run out of nodes
(`Pending.within`).
-/
namespace Rulebook.Tree

/-! ## Places in a tree -/

/-- One of the two operands of a joined expression. -/
inductive Side
  | left
  | right

/-- The operand on a side of the root.  A leaf has none. -/
def operand? : Tree → Side → Option Tree
  | .leaf _, _ => none
  | .node _ left _, .left => some left
  | .node _ _ right, .right => some right

/-- What stands at the end of a way down from the root, unless the way leads out of the tree. -/
def at? : Tree → List Side → Option Tree
  | t, [] => some t
  | t, side :: way => (t.operand? side).bind fun u => u.at? way

variable {x y u v : Tree} {way : List Side} {side : Side}

theorem at?_cons (h : x.operand? side = some u) : x.at? (side :: way) = u.at? way := by
  rw [at?, h, Option.bind_some]

/-- One step more leads to an operand of what the way leads to. -/
theorem at?_concat (h : x.at? way = some u) : x.at? (way ++ [side]) = u.operand? side := by
  induction way generalizing x with
  | nil =>
    obtain rfl : x = u := Option.some.inj h
    exact Option.bind_fun_some _
  | cons first way ih =>
    obtain ⟨w, hw, hu⟩ := Option.bind_eq_some_iff.mp h
    rw [List.cons_append, at?_cons hw, ih hu]

/-- Two trees have the same shape, the same connective at every joined expression and the same text
at every leaf. -/
structure Agree (x y : Tree) : Prop where
  /-- The same ways lead to a leaf, and the same ways to a joined expression. -/
  shape : ∀ way, (x.at? way).map isLeaf = (y.at? way).map isLeaf
  connective : ∀ way c l r d l' r', x.at? way = some (.node c l r) →
    y.at? way = some (.node d l' r') → c = d
  text : ∀ way s t, x.at? way = some (.leaf s) → y.at? way = some (.leaf t) → s = t

theorem Agree.refl (x : Tree) : Agree x x where
  shape _ := rfl
  connective way c l r d l' r' hx hy := by
    rw [hx] at hy
    cases hy
    rfl
  text way s t hx hy := by
    rw [hx] at hy
    cases hy
    rfl

/-- Trees that agree have operands that agree. -/
theorem Agree.operand (h : Agree x y) (side : Side) (hu : x.operand? side = some u)
    (hv : y.operand? side = some v) : Agree u v where
  shape way := by
    rw [← at?_cons hu, ← at?_cons hv]
    exact h.shape (side :: way)
  connective way c l r d l' r' hx hy :=
    h.connective (side :: way) c l r d l' r' (at?_cons hu ▸ hx) (at?_cons hv ▸ hy)
  text way s t hx hy := h.text (side :: way) s t (at?_cons hu ▸ hx) (at?_cons hv ▸ hy)

/-- **Trees that agree at every place are equal.** -/
theorem Agree.eq (h : Agree x y) : x = y := by
  -- the empty way leads to the roots, every other way leads through an operand
  induction x generalizing y with
  | leaf s =>
    cases y with
    | leaf t => rw [h.text [] s t rfl rfl]
    | node d l' r' => cases h.shape []
  | node c l r ihl ihr =>
    cases y with
    | leaf t => cases h.shape []
    | node d l' r' =>
      have hc : c = d := h.connective [] c l r d l' r' rfl rfl
      have hl : l = l' := ihl (h.operand .left rfl rfl)
      have hr : r = r' := ihr (h.operand .right rfl rfl)
      rw [hc, hl, hr]

theorem agree_iff : Agree x y ↔ x = y := ⟨Agree.eq, fun h => h ▸ Agree.refl x⟩

/-- The roots of two trees are not the same: one is a leaf and the other is not, or the texts or the
connectives differ. -/
def RootsDiffer : Tree → Tree → Prop
  | .leaf s, .leaf t => s ≠ t
  | .node c _ _, .node d _ _ => c ≠ d
  | _, _ => True

theorem not_rootsDiffer_self (t : Tree) : ¬ RootsDiffer t t := by
  cases t with
  | leaf text => exact fun h => h rfl
  | node c l r => exact fun h => h rfl

/-- Two trees have a place in common at which their roots differ. -/
def Differ (x y : Tree) : Prop :=
  ∃ way u v, x.at? way = some u ∧ y.at? way = some v ∧ RootsDiffer u v

theorem Differ.ne (h : Differ x y) : x ≠ y := by
  rintro rfl
  obtain ⟨way, u, v, hu, hv, hdiffer⟩ := h
  obtain rfl : u = v := Option.some.inj (hu.symm.trans hv)
  exact not_rootsDiffer_self u hdiffer

/-! ## One turn -/

/-- How a turn of the comparison ends: with the answer, or with the pairs that are left. -/
inductive Turn
  | answer (same : Bool)
  | next (pairs : List (Tree × Tree))

/-- One turn of the comparison. -/
def turn : List (Tree × Tree) → Turn
  | [] => .answer true
  | (.leaf s, .leaf t) :: rest => if s = t then .next rest else .answer false
  | (.node c l r, .node d l' r') :: rest =>
    if c = d then .next ((l, l') :: (r, r') :: rest) else .answer false
  | _ => .answer false

/-- The answer of the comparison, if it comes within so many turns. -/
def sameWithin : Nat → List (Tree × Tree) → Option Bool
  | 0, _ => none
  | n + 1, pairs =>
    match turn pairs with
    | .answer same => some same
    | .next pairs => sameWithin n pairs

variable {pairs pairs' : List (Tree × Tree)}

/-- What a turn can do: find nothing left to compare, find two roots that differ, or replace a pair
by the pairs of its operands, which are none at a leaf. -/
theorem turn_cases (pairs : List (Tree × Tree)) :
    (pairs = [] ∧ turn pairs = .answer true) ∨
    (∃ u v rest, pairs = (u, v) :: rest ∧ RootsDiffer u v ∧ turn pairs = .answer false) ∨
    (∃ text rest, pairs = (.leaf text, .leaf text) :: rest ∧ turn pairs = .next rest) ∨
    ∃ c l r l' r' rest, pairs = (.node c l r, .node c l' r') :: rest ∧
      turn pairs = .next ((l, l') :: (r, r') :: rest) := by
  rcases pairs with _ | ⟨⟨s | ⟨c, l, r⟩, t | ⟨d, l', r'⟩⟩, rest⟩
  · exact .inl ⟨rfl, rfl⟩
  · by_cases h : s = t
    · subst h
      exact .inr (.inr (.inl ⟨s, rest, rfl, if_pos rfl⟩))
    · exact .inr (.inl ⟨_, _, rest, rfl, h, if_neg h⟩)
  · exact .inr (.inl ⟨_, _, rest, rfl, trivial, rfl⟩)
  · exact .inr (.inl ⟨_, _, rest, rfl, trivial, rfl⟩)
  · by_cases h : c = d
    · subst h
      exact .inr (.inr (.inr ⟨c, l, r, l', r', rest, rfl, if_pos rfl⟩))
    · exact .inr (.inl ⟨_, _, rest, rfl, h, if_neg h⟩)

/-- The comparison is one turn after the other. -/
theorem sameAll_eq (pairs : List (Tree × Tree)) :
    sameAll pairs =
      match turn pairs with
      | .answer same => same
      | .next pairs => sameAll pairs := by
  -- both tell the same pairs apart
  fun_cases turn pairs <;> simp_all [sameAll]

theorem sameAll_of_within {n : Nat} {same : Bool} (h : sameWithin n pairs = some same) :
    sameAll pairs = same := by
  induction n generalizing pairs with
  | zero => cases h
  | succ n ih =>
    rw [sameWithin] at h
    rw [sameAll_eq]
    cases hturn : turn pairs with
    | answer b =>
      rw [hturn] at h
      exact Option.some.inj h
    | next rest =>
      rw [hturn] at h
      exact ih h

/-! ## What is pending -/

/-- The pairs that wait after `k` turns of the comparison of `x` with `y`. -/
structure Pending (x y : Tree) (k : Nat) (pairs : List (Tree × Tree)) : Prop where
  /-- What has been compared was the same, so what waits decides. -/
  equal_iff : x = y ↔ ∀ p ∈ pairs, p.1 = p.2
  /-- A pair stands at one place of both trees, so that left operands are compared with left ones
  and right operands with right ones. -/
  abreast : ∀ p ∈ pairs, ∃ way, x.at? way = some p.1 ∧ y.at? way = some p.2
  /-- The nodes of `x` are those compared and those under the pairs. -/
  nodes_left : pairWork pairs + k = x.size
  /-- The nodes of `y` are those compared and those under the pairs. -/
  nodes_right : pairWork (pairs.map Prod.swap) + k = y.size

theorem pending_start (x y : Tree) : Pending x y 0 [(x, y)] where
  equal_iff := by rw [List.forall_mem_singleton]
  abreast := List.forall_mem_singleton.mpr ⟨[], rfl, rfl⟩
  nodes_left := rfl
  nodes_right := rfl

namespace Pending

variable {k : Nat} {rest : List (Tree × Tree)}

/-- Two leaves with the same text are done with. -/
theorem leaf {text : String} (h : Pending x y k ((.leaf text, .leaf text) :: rest)) :
    Pending x y (k + 1) rest := by
  obtain ⟨hequal, habreast, hleft, hright⟩ := h
  simp only [pairWork, size, List.map_cons, Prod.swap_prod_mk] at hleft hright
  refine ⟨?_, (List.forall_mem_cons.mp habreast).2, by omega, by omega⟩
  rw [hequal, List.forall_mem_cons]
  exact and_iff_right rfl

/-- In place of two joined expressions with the same connective their operands wait, left with left
and right with right. -/
theorem node {c : Connective} {l r l' r' : Tree}
    (h : Pending x y k ((.node c l r, .node c l' r') :: rest)) :
    Pending x y (k + 1) ((l, l') :: (r, r') :: rest) := by
  obtain ⟨hequal, habreast, hleft, hright⟩ := h
  obtain ⟨⟨way, hx, hy⟩, hrest⟩ := List.forall_mem_cons.mp habreast
  simp only [pairWork, size, List.map_cons, Prod.swap_prod_mk] at hleft hright
  have hl : ∃ way, x.at? way = some l ∧ y.at? way = some l' :=
    ⟨way ++ [.left], at?_concat hx, at?_concat hy⟩
  have hr : ∃ way, x.at? way = some r ∧ y.at? way = some r' :=
    ⟨way ++ [.right], at?_concat hx, at?_concat hy⟩
  -- of the nodes under the pairs no more than the two roots are gone
  refine ⟨?_, List.forall_mem_cons.mpr ⟨hl, List.forall_mem_cons.mpr ⟨hr, hrest⟩⟩, ?_, ?_⟩
  · rw [hequal]
    simp only [List.forall_mem_cons, Tree.node.injEq, true_and, and_assoc]
  · simp only [pairWork]
    omega
  · simp only [pairWork, List.map_cons, Prod.swap_prod_mk]
    omega

/-- **A turn ends the comparison rightly or keeps both trees covered.** -/
theorem step (h : Pending x y k pairs) :
    (turn pairs = .answer true ∧ x = y) ∨ (turn pairs = .answer false ∧ Differ x y) ∨
      ∃ rest, turn pairs = .next rest ∧ Pending x y (k + 1) rest := by
  rcases turn_cases pairs with ⟨rfl, hturn⟩ | ⟨u, v, rest, rfl, hdiffer, hturn⟩ |
    ⟨text, rest, rfl, hturn⟩ | ⟨c, l, r, l', r', rest, rfl, hturn⟩
  · exact .inl ⟨hturn, h.equal_iff.mpr (List.forall_mem_nil _)⟩
  · obtain ⟨⟨way, hx, hy⟩, -⟩ := List.forall_mem_cons.mp h.abreast
    exact .inr (.inl ⟨hturn, way, u, v, hx, hy, hdiffer⟩)
  · exact .inr (.inr ⟨rest, hturn, h.leaf⟩)
  · exact .inr (.inr ⟨_, hturn, h.node⟩)

/-- **The comparison ends, and rightly.**  It takes at most one turn for each node that the smaller
tree has left, and one more to find that nothing waits. -/
theorem within (h : Pending x y k pairs) (n : Nat) (hn : min x.size y.size < k + n) :
    ∃ same, sameWithin n pairs = some same ∧
      ((same = true ∧ x = y) ∨ (same = false ∧ Differ x y)) := by
  induction n generalizing k pairs with
  | zero =>
    -- no more nodes can have been compared than there are
    have hleft := h.nodes_left
    have hright := h.nodes_right
    omega
  | succ n ih =>
    rcases h.step with ⟨hturn, heq⟩ | ⟨hturn, hdiffer⟩ | ⟨rest, hturn, hrest⟩
    · exact ⟨true, by rw [sameWithin, hturn], .inl ⟨rfl, heq⟩⟩
    · exact ⟨false, by rw [sameWithin, hturn], .inr ⟨rfl, hdiffer⟩⟩
    · obtain ⟨same, hsame, hspec⟩ := ih hrest (by omega)
      refine ⟨same, ?_, hspec⟩
      rw [sameWithin, hturn]
      exact hsame

end Pending

/-! ## What the comparison decides -/

/-- Enough turns are as many as the smaller tree has nodes, and one. -/
theorem sameWithin_eq {n : Nat} (hn : min x.size y.size < n) :
    sameWithin n [(x, y)] = some (x.same y) := by
  obtain ⟨same, hsame, -⟩ := (pending_start x y).within n (by omega)
  rw [hsame, Tree.same, sameAll_of_within hsame]

theorem same_cases (x y : Tree) :
    (x.same y = true ∧ x = y) ∨ (x.same y = false ∧ Differ x y) := by
  obtain ⟨same, hsame, hspec⟩ := (pending_start x y).within (min x.size y.size + 1) (by omega)
  rw [Tree.same, sameAll_of_within hsame]
  exact hspec

theorem same_eq_true_iff : x.same y = true ↔ x = y := by
  rcases same_cases x y with ⟨hsame, heq⟩ | ⟨hsame, hdiffer⟩
  · exact iff_of_true hsame heq
  · exact iff_of_false (ne_true_of_eq_false hsame) hdiffer.ne

theorem same_eq_false_iff : x.same y = false ↔ Differ x y := by
  rcases same_cases x y with ⟨hsame, heq⟩ | ⟨hsame, hdiffer⟩
  · exact iff_of_false (ne_false_of_eq_true hsame) fun h => h.ne heq
  · exact iff_of_true hsame hdiffer

theorem equivalence_same : Equivalence fun x y : Tree => x.same y = true where
  refl _ := same_eq_true_iff.mpr rfl
  symm h := same_eq_true_iff.mpr (same_eq_true_iff.mp h).symm
  trans h h' := same_eq_true_iff.mpr ((same_eq_true_iff.mp h).trans (same_eq_true_iff.mp h'))

/-- **Comparing decides whether two trees are the same.**  The comparison of any two trees comes to
an end, in at most one turn more than the smaller one has nodes.  It says yes exactly if the trees
agree in shape, in the connective at every joined expression and in the text at every leaf, and no
exactly if they have a place in common at which their roots differ.  So being the same is an
equivalence, and trees that are the same have one document and one infix form, and evaluate to the
same truth value or fail with the same error on every record, whatever the cache holds by then. -/
theorem same_decides_structure :
    (∀ (x y : Tree) (n : Nat), min x.size y.size < n →
      sameWithin n [(x, y)] = some (x.same y)) ∧
    (∀ x y : Tree, x.same y = true ↔ Agree x y) ∧
    (∀ x y : Tree, x.same y = false ↔ Differ x y) ∧
    (Equivalence fun x y : Tree => x.same y = true) ∧
    ∀ x y : Tree, x.same y = true →
      x.toJson = y.toJson ∧ x.display = y.display ∧
      ∀ (r : Record) (k k' : Cache), k.Reachable → k'.Reachable →
        ((x.evaluate r).runOn k).1 = ((y.evaluate r).runOn k').1 := by
  refine ⟨fun x y n hn => sameWithin_eq hn, fun x y => same_eq_true_iff.trans agree_iff.symm,
    fun x y => same_eq_false_iff, equivalence_same, ?_⟩
  intro x y h
  obtain rfl := same_eq_true_iff.mp h
  refine ⟨rfl, rfl, ?_⟩
  intro r k k' hk hk'
  rw [(Cached.faithful_evaluate x r k hk.sound).1, (Cached.faithful_evaluate x r k' hk'.sound).1]

/-- Three conditions joined from the left. -/
def joinedLeft : Tree :=
  .node .and (.node .and (.leaf "a > 'k'") (.leaf "b < 'k'")) (.leaf "c = 'x'")

/-- The same conditions joined from the right. -/
def joinedRight : Tree :=
  .node .and (.leaf "a > 'k'") (.node .and (.leaf "b < 'k'") (.leaf "c = 'x'"))

/-- A record that satisfies the conditions. -/
def satisfying : Record := .ofList [("a", .text "m"), ("b", .text "d"), ("c", .text "x")]

/-- Trees with the same conditions and connectives in the same order are not the same if they are
joined differently.  A tree and its copy are the same, and the copy evaluates with a cache that
keeps nothing as the tree does with one at its beginning. -/
theorem same_decides_structure_joined :
    sameWithin 6 [(joinedLeft, joinedRight)] = some false ∧ Differ joinedLeft joinedRight ∧
    ((joinedLeft.evaluate satisfying).runOn .initial).1 = .ok true ∧
    ((joinedLeft.copy.evaluate satisfying).runOn
      (Cache.initial.after (.setCapacity 0))).1 = .ok true := by
  have hjoined : joinedLeft.same joinedRight = false := by decide +kernel
  have hcopy : joinedLeft.same joinedLeft.copy = true := by decide +kernel
  have hvalue : ((joinedLeft.evaluate satisfying).runOn .initial).1 = .ok true := by
    decide +kernel
  obtain ⟨hends, -, hno, -, halike⟩ := same_decides_structure
  refine ⟨?_, (hno _ _).mp hjoined, hvalue, ?_⟩
  · rw [hends _ _ 6 (by decide), hjoined]
  · rw [← hvalue]
    exact ((halike _ _ hcopy).2.2 _ _ _ Cache.reachable_initial
      (Cache.reachable_initial.after _)).symm

end Rulebook.Tree
