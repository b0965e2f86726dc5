import Rulebook.Proofs.EagerEvaluation

/-! # Evaluation sees the named attributes only, and never loses by a value more

A tree *names* the attributes that its leaves say conditions on (`Tree.attrs`).  A condition is
about one attribute, and holds of no record that lacks it, whatever the comparator.  So a condition
that holds of a record goes on holding in every record that keeps the value of its attribute
(`Condition.holds_mono`).  Both connectives are monotone, hence so are the truth values of whole
trees (`Tree.truth_mono`).

Failing has nothing to do with the record: a tree fails on every record, with one and the same
error, or it has a truth value on every record (`Tree.verdict_cases`).
-/
namespace Rulebook

/-- Both connectives are monotone. -/
theorem Connective.apply_mono {c : Connective} {a b a' b' : Bool} (ha : a = true → a' = true)
    (hb : b = true → b' = true) (h : c.apply a b = true) : c.apply a' b' = true := by
  cases c with
  | and =>
    obtain ⟨h₁, h₂⟩ := Bool.and_eq_true_iff.mp h
    exact Bool.and_eq_true_iff.mpr ⟨ha h₁, hb h₂⟩
  | or => exact Bool.or_eq_true_iff.mpr ((Bool.or_eq_true_iff.mp h).imp ha hb)

/-- **A condition that holds goes on holding** where the value of its attribute is kept. -/
theorem Condition.holds_mono {c : Condition} {r r' : Record}
    (h : r.get? c.attr = none ∨ r'.get? c.attr = r.get? c.attr) (hc : c.holds r = true) :
    c.holds r' = true := by
  unfold holds at hc ⊢
  rcases h with hnone | hsame
  · -- a condition on an attribute that is not there does not hold
    rw [hnone] at hc
    cases hc
  · rw [hsame]
    exact hc

theorem Record.satisfies_mono {text : String} {r r' : Record}
    (h : ∀ c, Condition.parse text = .ok c →
      r.get? c.attr = none ∨ r'.get? c.attr = r.get? c.attr)
    (hr : r.satisfies text = true) : r'.satisfies text = true := by
  obtain ⟨c, hparse, hc⟩ := (Option.any_eq_true _ _).mp hr
  have hkept := h c (Condition.parse_eq_ok_iff.mpr hparse)
  exact (Option.any_eq_true _ _).mpr ⟨c, hparse, Condition.holds_mono hkept hc⟩

namespace Tree

/-- The attributes that the leaves say conditions on. -/
def attrs (t : Tree) : List String :=
  t.leaves.filterMap fun text => (Condition.parse? text).map Condition.attr

theorem mem_attrs_iff {t : Tree} {attr : String} :
    attr ∈ t.attrs ↔ ∃ text ∈ t.leaves, ∃ c, Condition.parse text = .ok c ∧ c.attr = attr := by
  simp only [attrs, List.mem_filterMap, Option.map_eq_some_iff, Condition.parse_eq_ok_iff]

/-- If the leaves that were true stay true, a tree that was true stays true. -/
theorem truth_mono {p q : String → Bool} {t : Tree}
    (h : ∀ text ∈ t.leaves, p text = true → q text = true) (ht : t.truth p = true) :
    t.truth q = true := by
  induction t with
  | leaf text => exact h text (by simp) ht
  | node c left right ihl ihr =>
    rw [leaves_node, List.forall_mem_append] at h
    exact Connective.apply_mono (ihl h.1) (ihr h.2) ht

/-- A tree that is true of a record is true of every record that keeps the values of the named
attributes. -/
theorem truth_satisfies_mono {t : Tree} {r r' : Record}
    (h : ∀ attr ∈ t.attrs, r.get? attr = none ∨ r'.get? attr = r.get? attr) :
    t.truth r.satisfies = true → t.truth r'.satisfies = true := by
  refine truth_mono fun text htext => Record.satisfies_mono fun c hc => ?_
  exact h c.attr (mem_attrs_iff.mpr ⟨text, htext, c, hc, rfl⟩)

theorem truth_satisfies_congr {t : Tree} {r r' : Record}
    (h : ∀ attr ∈ t.attrs, r'.get? attr = r.get? attr) :
    t.truth r.satisfies = t.truth r'.satisfies := by
  refine Bool.eq_iff_iff.mpr ⟨?_, ?_⟩
  · exact truth_satisfies_mono fun attr hattr => .inr (h attr hattr)
  · exact truth_satisfies_mono fun attr hattr => .inr (h attr hattr).symm

/-- **Whether a tree fails, and with which error, does not depend on the record.** -/
theorem verdict_cases (t : Tree) :
    (∀ r, t.verdict r = .ok (t.truth r.satisfies)) ∨ ∃ e, ∀ r, t.verdict r = .error e := by
  by_cases h : ∀ text ∈ t.leaves, Condition.Accepted text
  · exact .inl (verdict_eq_truth h)
  · obtain ⟨before, text, after, hleaves, hbefore, htext⟩ :=
      exists_first_refused (by simpa using h)
    refine .inr ⟨.malformedCondition text, fun r => ?_⟩
    have hrun := runOn_evaluate_refused Cache.sound_initial r hleaves hbefore htext
    rw [← (Cached.faithful_evaluate t r _ Cache.sound_initial).1, hrun]

/-- **Evaluation sees the named attributes only, and never loses by a value more.**  Take two
records and whatever caches calls can reach.  If the second record keeps the values that the first
has for the attributes named in the tree, then a tree that is true of the first is true of the
second.  If the records agree on these attributes, the answers are the same.  And an error does not
depend on the record at all. -/
theorem evaluates_monotonically (t : Tree) (r r' : Record) {k k' : Cache} (hk : k.Reachable)
    (hk' : k'.Reachable) :
    ((∀ attr ∈ t.attrs, r.get? attr = none ∨ r'.get? attr = r.get? attr) →
      ((t.evaluate r).runOn k).1 = .ok true → ((t.evaluate r').runOn k').1 = .ok true) ∧
    ((∀ attr ∈ t.attrs, r'.get? attr = r.get? attr) →
      ((t.evaluate r).runOn k).1 = ((t.evaluate r').runOn k').1) ∧
    ∀ e, ((t.evaluate r).runOn k).1 = .error e ↔ ((t.evaluate r').runOn k').1 = .error e := by
  rw [(Cached.faithful_evaluate t r k hk.sound).1, (Cached.faithful_evaluate t r' k' hk'.sound).1]
  rcases t.verdict_cases with hok | ⟨e, herror⟩
  · rw [hok, hok]
    refine ⟨?_, ?_, ?_⟩
    · intro h htrue
      exact congrArg Except.ok (truth_satisfies_mono h (Except.ok.inj htrue))
    · intro h
      exact congrArg Except.ok (truth_satisfies_congr h)
    · simp
  · rw [herror, herror]
    exact ⟨fun _ htrue => htrue, fun _ => rfl, fun _ => Iff.rfl⟩

/-- `a > 1 AND b = 'x' OR c < 2`. -/
def threeNamed : Tree :=
  .node .or (.node .and (.leaf "a > 1") (.leaf "b = 'x'")) (.leaf "c < 2")

/-- A record in which `a` is no number and `b` has no value, with a further value. -/
def withoutNumber (attr value : String) : Record :=
  .ofList [("a", .number ⟨0x7FF8000000000000⟩), ("c", .number ⟨0x3FF0000000000000⟩),
    (attr, .text value)]

/-- The tree is true of the record and stays so if `b` gets a value, also with a cache that keeps
nothing.  A value of an attribute that is not named makes no difference.  A tree with a leaf that
says no condition fails on both records alike. -/
theorem evaluates_monotonically_threeNamed :
    threeNamed.attrs = ["a", "b", "c"] ∧
    ((threeNamed.evaluate (withoutNumber "d" "x")).runOn .initial).1 = .ok true ∧
    ((threeNamed.evaluate (withoutNumber "b" "x")).runOn
      (Cache.initial.after (.setCapacity 0))).1 = .ok true ∧
    ((threeNamed.evaluate (withoutNumber "d" "x")).runOn .initial).1 =
      ((threeNamed.evaluate (withoutNumber "d" "y")).runOn .initial).1 ∧
    (((Tree.node .or threeNamed (.leaf "a >")).evaluate (withoutNumber "b" "x")).runOn
      .initial).1 = .error (.malformedCondition "a >") := by
  have haccepted : ∀ text ∈ threeNamed.leaves, Condition.Accepted text := by decide +kernel
  have htrue : ((threeNamed.evaluate (withoutNumber "d" "x")).runOn .initial).1 = .ok true := by
    rw [runOn_evaluate_accepted Cache.sound_initial _ haccepted]
    exact congrArg Except.ok (by decide +kernel)
  have hfails : (((Tree.node .or threeNamed (.leaf "a >")).evaluate
      (withoutNumber "d" "x")).runOn .initial).1 = .error (.malformedCondition "a >") := by
    have hleaves : (Tree.node .or threeNamed (.leaf "a >")).leaves = threeNamed.leaves ++ ["a >"] :=
      rfl
    exact congrArg Prod.fst (runOn_evaluate_refused Cache.sound_initial (withoutNumber "d" "x")
      hleaves haccepted (by decide +kernel))
  have hi := Cache.reachable_initial
  refine ⟨by decide +kernel, htrue, ?_, ?_, ?_⟩
  · exact (evaluates_monotonically threeNamed (withoutNumber "d" "x") (withoutNumber "b" "x") hi
      (hi.after (.setCapacity 0))).1 (by decide +kernel) htrue
  · exact (evaluates_monotonically threeNamed (withoutNumber "d" "x") (withoutNumber "d" "y") hi
      hi).2.1 (by decide +kernel)
  · exact ((evaluates_monotonically _ (withoutNumber "d" "x") (withoutNumber "b" "x") hi hi).2.2
      _).mp hfails

end Tree

end Rulebook
