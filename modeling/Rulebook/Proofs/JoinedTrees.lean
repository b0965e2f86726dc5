import Mathlib.Data.List.Forall2
import Mathlib.Order.Bounds.Defs
import Rulebook.Proofs.CacheSoundness
import Rulebook.Proofs.ReadableTrees

/-! # Joined trees

Trees are joined from the left, so joining some trees and then more of them is joining them all
(`Tree.joinAll_append`): the tree grows at its root, and what was joined before is its left operand.

Every tree behind the first one is the right operand of one join and stands under the joins of the
trees behind it.  The first tree stands under all joins.  So the deepest of the trees, counted from
there, gives the depth of the joined tree (`Tree.isGreatest_depth_foldl`).

The truth value is that of the connective over the trees (`Tree.verdict_foldl_ok`).  Operands are
evaluated from left to right and none is passed over, so the first tree that fails decides what the
joined tree fails with (`Tree.verdict_joined_error`).
-/
namespace Rulebook

namespace Connective

/-- The truth value of several expressions under one connective. -/
def applyAll : Connective → List Bool → Bool
  | .and, bs => bs.all id
  | .or, bs => bs.any id

/-- Two values under the connective count as one. -/
theorem applyAll_cons_cons (c : Connective) (a b : Bool) (bs : List Bool) :
    c.applyAll (a :: b :: bs) = c.applyAll (c.apply a b :: bs) := by
  cases c with
  | and => exact (Bool.and_assoc a b _).symm
  | or => exact (Bool.or_assoc a b _).symm

theorem foldl_apply (c : Connective) (bs : List Bool) (a : Bool) :
    bs.foldl c.apply a = c.applyAll (a :: bs) := by
  induction bs generalizing a with
  | nil =>
    cases c with
    | and => exact (Bool.and_true a).symm
    | or => exact (Bool.or_false a).symm
  | cons b bs ih => rw [List.foldl_cons, ih, applyAll_cons_cons]

end Connective

namespace Tree

variable {c : Connective} {t : Tree} {ts : List Tree} {r : Record}

/-! ## The shape -/

/-- Joining does not fail. -/
theorem result_combine (c : Connective) (ts : List Tree) :
    (combine c ts).result = .ok (joinAll c ts) := by
  unfold combine
  cases joinAll c ts with
  | none => rfl
  | some t => rfl

/-- **Joining some trees first makes no difference.** -/
theorem joinAll_append (c : Connective) (t : Tree) (ts us : List Tree) :
    joinAll c (t :: ts ++ us) = joinAll c (ts.foldl (node c) t :: us) := by
  rw [List.cons_append, joinAll, joinAll, List.foldl_append]

/-- The depths that the trees behind the first one come to when they are joined. -/
def laterDepths (ts : List Tree) : Set ℕ :=
  {d | ∃ before u after, ts = before ++ u :: after ∧ d = u.depth + (after.length + 1)}

theorem notMem_laterDepths_nil {d : ℕ} : d ∉ laterDepths [] := by
  rintro ⟨before, u, after, hnil, -⟩
  simp at hnil

theorem mem_laterDepths_cons {d : ℕ} {u : Tree} {us : List Tree} :
    d ∈ laterDepths (u :: us) ↔ d = u.depth + (us.length + 1) ∨ d ∈ laterDepths us := by
  constructor
  · rintro ⟨before, v, after, hsplit, rfl⟩
    rcases List.cons_eq_append_iff.mp hsplit with ⟨-, hv⟩ | ⟨before', -, hus⟩
    · obtain ⟨rfl, rfl⟩ := List.cons.inj hv
      exact .inl rfl
    · exact .inr ⟨before', v, after, hus, rfl⟩
  · rintro (rfl | ⟨before, v, after, rfl, rfl⟩)
    · exact ⟨[], u, us, rfl, rfl⟩
    · exact ⟨u :: before, v, after, rfl, rfl⟩

/-- **The depth of a joined tree.** -/
theorem isGreatest_depth_foldl (c : Connective) (t : Tree) (ts : List Tree) :
    IsGreatest (insert (t.depth + ts.length) (laterDepths ts)) (ts.foldl (node c) t).depth := by
  induction ts generalizing t with
  | nil =>
    refine ⟨.inl rfl, ?_⟩
    rintro d (rfl | hd)
    · exact le_rfl
    · exact absurd hd notMem_laterDepths_nil
  | cons u us ih =>
    -- the first two trees are one tree of the shorter list
    obtain ⟨hmem, hle⟩ := ih (node c t u)
    have hjoin := hle (.inl rfl)
    rw [depth_node] at hmem hjoin
    rw [List.foldl_cons, List.length_cons]
    constructor
    · rcases hmem with heq | hd
      · rcases le_total t.depth u.depth with htu | hut
        · exact .inr (mem_laterDepths_cons.mpr (.inl (by omega)))
        · exact .inl (by omega)
      · exact .inr (mem_laterDepths_cons.mpr (.inr hd))
    · rintro d (rfl | hd)
      · omega
      · rcases mem_laterDepths_cons.mp hd with rfl | hd
        · omega
        · exact hle (.inr hd)

/-! ## The truth value -/

theorem verdict_foldl_ok {bs : List Bool} {a : Bool} (ht : t.verdict r = .ok a)
    (hts : List.Forall₂ (fun u b => u.verdict r = .ok b) ts bs) :
    (ts.foldl (node c) t).verdict r = .ok (c.applyAll (a :: bs)) := by
  rw [← c.foldl_apply]
  induction hts generalizing t a with
  | nil => exact ht
  | cons hu _ ih =>
    refine ih ?_
    rw [verdict, ht, hu]
    rfl

/-- What fails also fails as the first of several trees. -/
theorem verdict_foldl_error {e : RuleError} (ht : t.verdict r = .error e) :
    (ts.foldl (node c) t).verdict r = .error e := by
  induction ts generalizing t with
  | nil => exact ht
  | cons u us ih =>
    refine ih ?_
    rw [verdict, ht]
    rfl

theorem exists_forall₂_verdict (h : ∀ u ∈ ts, ∃ b, u.verdict r = .ok b) :
    ∃ bs, List.Forall₂ (fun u b => u.verdict r = .ok b) ts bs := by
  induction ts with
  | nil => exact ⟨[], .nil⟩
  | cons u us ih =>
    obtain ⟨⟨b, hb⟩, hus⟩ := List.forall_mem_cons.mp h
    obtain ⟨bs, hbs⟩ := ih hus
    exact ⟨b :: bs, .cons hb hbs⟩

/-- **The first tree that fails decides.** -/
theorem verdict_joined_error {before after : List Tree} {u : Tree} {e : RuleError}
    (hsplit : t :: ts = before ++ u :: after) (hbefore : ∀ x ∈ before, ∃ b, x.verdict r = .ok b)
    (hu : u.verdict r = .error e) : (ts.foldl (node c) t).verdict r = .error e := by
  rcases List.cons_eq_append_iff.mp hsplit with ⟨-, hfirst⟩ | ⟨before', rfl, rfl⟩
  · obtain ⟨rfl, rfl⟩ := List.cons.inj hfirst
    exact verdict_foldl_error hu
  · obtain ⟨⟨a, ha⟩, hrest⟩ := List.forall_mem_cons.mp hbefore
    obtain ⟨bs, hbs⟩ := exists_forall₂_verdict hrest
    rw [List.foldl_append, List.foldl_cons]
    refine verdict_foldl_error ?_
    rw [verdict, verdict_foldl_ok ha hbs, hu]
    rfl

/-- **Joining trees.**  No trees give no tree, and a single one gives itself.  Several give a tree
that is the same if some of them are joined first.  Its leaves are those of the trees in their
order; its depth is the largest of the depths that the trees come to, of which the first stands
under all joins, and every other under its own join and those of the trees behind it.

Evaluated on a record, the joined tree is the conjunction or the disjunction of the trees if all of
them have a truth value; otherwise it fails as the first of them that fails. -/
theorem combine_laws (c : Connective) :
    (combine c []).result = .ok none ∧ (∀ t, (combine c [t]).result = .ok (some t)) ∧
    ∀ t ts, ∃ joined, (combine c (t :: ts)).result = .ok (some joined) ∧
      (∀ us, (combine c (t :: ts ++ us)).result = (combine c (joined :: us)).result) ∧
      joined.leaves = (t :: ts).flatMap leaves ∧
      IsGreatest (insert (t.depth + ts.length)
        {d | ∃ before u after, ts = before ++ u :: after ∧ d = u.depth + (after.length + 1)})
        joined.depth ∧
      ∀ (r : Record) (k k' : Cache), k.Reachable → k'.Reachable →
        (∀ bs, List.Forall₂ (fun u b => ((u.evaluate r).runOn k').1 = .ok b) (t :: ts) bs →
          ((joined.evaluate r).runOn k).1 = .ok (c.applyAll bs)) ∧
        ∀ before u after e, t :: ts = before ++ u :: after →
          (∀ x ∈ before, ∃ b, ((x.evaluate r).runOn k').1 = .ok b) →
          ((u.evaluate r).runOn k').1 = .error e →
          ((joined.evaluate r).runOn k).1 = .error e := by
  refine ⟨rfl, fun t => rfl, ?_⟩
  intro t ts
  refine ⟨ts.foldl (node c) t, rfl, ?_, leaves_joinAll rfl, isGreatest_depth_foldl c t ts, ?_⟩
  · intro us
    rw [result_combine, result_combine, joinAll_append]
  · intro r k k' hk hk'
    have hanswer : ∀ x : Tree, ((x.evaluate r).runOn k').1 = x.verdict r :=
      fun x => (Cached.faithful_evaluate x r k' hk'.sound).1
    simp only [hanswer, (Cached.faithful_evaluate _ r k hk.sound).1]
    constructor
    · rintro bs (_ | ⟨ht, hts⟩)
      exact verdict_foldl_ok ht hts
    · intro before u after e
      exact verdict_joined_error

/-- Three trees joined, of which the second is the deepest.  Under the other connective the second
fails, before the third could. -/
theorem combine_laws_three :
    (∃ joined, (combine .and [.leaf "a = 'x'", .node .or (.leaf "b = 1") (.leaf "a < 'y'"),
        .leaf "a > 'w'"]).result = .ok (some joined) ∧ 4 ≤ joined.depth ∧
      ((joined.evaluate (.ofList [("a", .text "x")])).runOn .initial).1 = .ok true) ∧
    ∃ joined, (combine .or [.leaf "a = 'x'", .leaf "b >", .leaf "c <"]).result = .ok (some joined) ∧
      ((joined.evaluate (.ofList [("a", .text "x")])).runOn .initial).1 =
        .error (.malformedCondition "b >") := by
  constructor
  · obtain ⟨joined, hresult, -, -, hdepth, hvalue⟩ := (combine_laws .and).2.2 (.leaf "a = 'x'")
      [.node .or (.leaf "b = 1") (.leaf "a < 'y'"), .leaf "a > 'w'"]
    refine ⟨joined, hresult, ?_, ?_⟩
    · exact hdepth.2 (.inr ⟨[], _, _, rfl, by decide +kernel⟩)
    · refine (hvalue (.ofList [("a", .text "x")]) _ _ Cache.reachable_initial
        Cache.reachable_initial).1 [true, true, true] ?_
      exact .cons (by decide +kernel) (.cons (by decide +kernel) (.cons (by decide +kernel) .nil))
  · obtain ⟨joined, hresult, -, -, -, hvalue⟩ := (combine_laws .or).2.2 (.leaf "a = 'x'")
      [.leaf "b >", .leaf "c <"]
    refine ⟨joined, hresult, ?_⟩
    refine (hvalue (.ofList [("a", .text "x")]) _ _ Cache.reachable_initial
      Cache.reachable_initial).2 [.leaf "a = 'x'"] (.leaf "b >") [.leaf "c <"] _ rfl ?_ ?_
    · exact List.forall_mem_singleton.mpr ⟨true, by decide +kernel⟩
    · decide +kernel

end Tree

end Rulebook
