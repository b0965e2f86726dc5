import Rulebook.Proofs.CacheSoundness
import Rulebook.Proofs.ReadableTrees
import Rulebook.Proofs.StoreValidity

/-! # What compiles can be evaluated

The leaves of a tree are taken apart only when the tree is evaluated, by a reader of its own.  No
leaf of a compiled tree is refused then: every condition that the scanner cuts out of a text is
readable by itself (`Tree.Compiled.readable`), and a readable tree has a truth value on every record
(`Tree.Readable.exists_verdict`).  With a cache that calls can reach this is also what an evaluation
answers, and so does a store that is asked for a rule that it keeps.
-/
namespace Rulebook

namespace Tree

/-- A readable tree has a truth value on every record. -/
theorem Readable.exists_verdict {t : Tree} (h : t.Readable) (r : Record) :
    ∃ b, t.verdict r = .ok b := by
  induction t with
  | leaf text =>
    obtain ⟨c, hc, -⟩ := readable_leaf.mp h
    exact ⟨c.holds r, by rw [verdict, hc]; rfl⟩
  | node c left right ihl ihr =>
    obtain ⟨hl, hr⟩ := readable_node.mp h
    obtain ⟨a, ha⟩ := ihl hl
    obtain ⟨b, hb⟩ := ihr hr
    exact ⟨c.apply a b, by rw [verdict, ha, hb]; rfl⟩

theorem Readable.exists_evaluate {t : Tree} (h : t.Readable) (r : Record) {k : Cache}
    (hk : k.Sound) : ∃ b, ((t.evaluate r).runOn k).1 = .ok b := by
  obtain ⟨b, hb⟩ := h.exists_verdict r
  exact ⟨b, (Cached.faithful_evaluate t r k hk).1.trans hb⟩

end Tree

/-- A store answers for a rule that it finds what the tree of the rule evaluates to. -/
theorem Store.result_evaluate {s : Store} {id : String} {rule : StoredRule}
    (h : s.get id = .ok rule) (r : Record) (k : Cache) :
    (s.evaluate id r k).1.result = ((rule.tree.evaluate r).runOn k).1 := by
  simp only [evaluate, h]
  split <;> rename_i heq <;> rw [heq]

/-- **What compiles can be evaluated.**  Every leaf of a tree that comes out of the compiler says a
condition on an attribute that is no connective, and evaluating the tree gives a truth value on
every record, whatever the cache holds by then.  So does a store for the identifier of every rule
that it keeps. -/
theorem compiled_trees_evaluate :
    (∀ t : Tree, t.Compiled → t.Readable ∧ ∀ (r : Record) (k : Cache), k.Reachable →
      ∃ b, ((t.evaluate r).runOn k).1 = .ok b) ∧
    ∀ s : Store, s.Reachable → ∀ rule ∈ s.rules, ∀ (r : Record) (k : Cache), k.Reachable →
      ∃ b, (s.evaluate rule.id r k).1.result = .ok b := by
  refine ⟨?_, ?_⟩
  · intro t h
    exact ⟨h.readable, fun r k hk => h.readable.exists_evaluate r hk.sound⟩
  · intro s hs rule hrule r k hk
    -- the rule that is found may be a later one with the same identifier, which compiled as well
    obtain ⟨found, hmem, hget⟩ := hs.valid.exists_get_eq_ok hrule
    have hcompiled : found.tree.Compiled := .rule (hs.valid.compiled found hmem)
    rw [Store.result_evaluate hget]
    exact hcompiled.readable.exists_evaluate r hk.sound

/-- A store under the draining policy with one rule, in which garbage stands next to a quoted
literal and a number is cut short. -/
def garbledStore : Store :=
  ((Store.empty .drain).create "r1" "" "a > 1e-5) OR b = '(' c").2

/-- The tree of the one rule, and its identifier, evaluate also when the cache has just been filled
and made too small for what it holds. -/
theorem compiled_trees_evaluate_garbled :
    ∃ rule ∈ garbledStore.rules, rule.tree = .node .or (.leaf "a > 1e") (.leaf "b = '('") ∧
      (∀ r, ∃ b, ((rule.tree.evaluate r).runOn
        (([.evaluate rule.tree r, .setCapacity 1] : List Cache.Call).foldl .after .initial)).1 =
          .ok b) ∧
      ∀ r, ∃ b, (garbledStore.evaluate rule.id r .initial).1.result = .ok b := by
  have hc : (Tree.compile .drain "a > 1e-5) OR b = '(' c").result =
      .ok (.node .or (.leaf "a > 1e") (.leaf "b = '('")) := by cbv
  have hs : garbledStore.Reachable := .created (.opened .drain) _ _ _
  have hr : ⟨"r1", "a > 1e-5) OR b = '(' c", .node .or (.leaf "a > 1e") (.leaf "b = '('"), ""⟩ ∈
      garbledStore.rules := by
    rcases Store.create_cases (.empty .drain) "r1" "" "a > 1e-5) OR b = '(' c" with
      ⟨tree, ht, hadd⟩ | ⟨e, he, -⟩
    · obtain rfl := Except.ok.inj (hc.symm.trans ht)
      rw [garbledStore, hadd]
      exact List.mem_singleton_self _
    · cases hc.symm.trans he
  refine ⟨_, hr, rfl, ?_, ?_⟩
  · intro r
    refine (compiled_trees_evaluate.1 _ (.rule hc)).2 r _ ?_
    exact (Cache.reachable_initial.after (.evaluate _ r)).after (.setCapacity 1)
  · intro r
    exact compiled_trees_evaluate.2 garbledStore hs _ hr r _ Cache.reachable_initial

end Rulebook
