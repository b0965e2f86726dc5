import Rulebook.Proofs.Compilation
import Rulebook.Store

/-! # Stores and their index

A store changes only when a rule is created (`Store.Reachable`).  In every store that can be reached
each rule holds the tree that its text compiles to under the policy of the store, every entry of the
index leads to a rule with its identifier, and every rule has an entry (`Store.Valid`).  So a rule
can always be found by the identifier of a stored rule (`Store.Valid.exists_get_eq_ok`).
-/
namespace Rulebook.Store

/-- The stores that are opened under a policy, and those that creating rules leaves, whether the
rules compile or not. -/
inductive Reachable : Store → Prop
  | opened (policy : ParenPolicy) : Reachable (.empty policy)
  | created {s : Store} (h : Reachable s) (id createdAt rule : String) :
    Reachable (s.create id createdAt rule).2

/-- The rules are what their texts compile to, and the index leads to all of them. -/
structure Valid (s : Store) : Prop where
  compiled : ∀ rule ∈ s.rules, (Tree.compile s.policy rule.source).result = .ok rule.tree
  indexed : ∀ e ∈ s.index, ∃ rule, s.rules[e.2]? = some rule ∧ rule.id = e.1
  known : ∀ rule ∈ s.rules, ∃ place, (rule.id, place) ∈ s.index

theorem valid_empty (policy : ParenPolicy) : (empty policy).Valid := by
  constructor <;> intro _ h <;> exact absurd h List.not_mem_nil

/-- **What creating a rule does**: the rule is added if its text compiles, and nothing happens
otherwise. -/
theorem create_cases (s : Store) (id createdAt rule : String) :
    (∃ tree, (Tree.compile s.policy rule).result = .ok tree ∧
      (s.create id createdAt rule).2 = s.add ⟨id, rule, tree, createdAt⟩) ∨
    (∃ e, (Tree.compile s.policy rule).result = .error e ∧
      (s.create id createdAt rule).2 = s) := by
  cases h : (Tree.compile s.policy rule).result with
  | error e => exact .inr ⟨e, rfl, by simp only [create, h]⟩
  | ok tree => exact .inl ⟨tree, rfl, by simp only [create, h]⟩

namespace Valid

variable {s : Store}

theorem add (h : s.Valid) {r : StoredRule}
    (hr : (Tree.compile s.policy r.source).result = .ok r.tree) : (s.add r).Valid := by
  have hlast : (s.rules ++ [r])[s.size]? = some r := List.getElem?_concat_length
  constructor
  · intro rule hrule
    rcases List.mem_append.mp hrule with hrule | hrule
    · exact h.compiled rule hrule
    · obtain rfl := List.mem_singleton.mp hrule
      exact hr
  · intro e he
    rcases List.mem_cons.mp he with rfl | he
    · exact ⟨r, hlast, rfl⟩
    · -- the places of the earlier rules stay, since the new rule comes last
      obtain ⟨rule, hrule, hid⟩ := h.indexed e he
      have hlt : e.2 < s.rules.length := (List.getElem?_eq_some_iff.mp hrule).1
      exact ⟨rule, (List.getElem?_append_left hlt).trans hrule, hid⟩
  · intro rule hrule
    rcases List.mem_append.mp hrule with hrule | hrule
    · obtain ⟨place, hplace⟩ := h.known rule hrule
      exact ⟨place, List.mem_cons_of_mem _ hplace⟩
    · obtain rfl := List.mem_singleton.mp hrule
      exact ⟨s.size, List.mem_cons_self⟩

theorem create (h : s.Valid) (id createdAt rule : String) :
    (s.create id createdAt rule).2.Valid := by
  rcases s.create_cases id createdAt rule with ⟨tree, hc, hs⟩ | ⟨e, -, hs⟩
  · rw [hs]
    exact h.add hc
  · rw [hs]
    exact h

/-- The identifier of a stored rule leads to a stored rule. -/
theorem exists_get_eq_ok (h : s.Valid) {rule : StoredRule} (hr : rule ∈ s.rules) :
    ∃ found ∈ s.rules, s.get rule.id = .ok found := by
  obtain ⟨place, hplace⟩ := h.known rule hr
  have hsome : (s.index.lookup rule.id).isSome :=
    List.lookup_isSome_iff.mpr ⟨_, hplace, BEq.rfl⟩
  -- the entry that is looked up is the latest one, which need not be that of `rule`
  obtain ⟨place', hl⟩ := Option.isSome_iff_exists.mp hsome
  obtain ⟨before, after, hindex, -⟩ := List.lookup_eq_some_iff.mp hl
  obtain ⟨found, hfound, -⟩ := h.indexed (rule.id, place') (by rw [hindex]; simp)
  refine ⟨found, List.mem_of_getElem? hfound, ?_⟩
  rw [get, get?, hl, Option.bind_some, hfound]

end Valid

theorem Reachable.valid {s : Store} (h : s.Reachable) : s.Valid := by
  induction h with
  | opened policy => exact valid_empty policy
  | created _ id createdAt rule ih => exact ih.create id createdAt rule

end Rulebook.Store
