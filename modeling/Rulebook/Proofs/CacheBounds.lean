import Rulebook.Proofs.CacheSoundness
import Rulebook.Proofs.TreeListing

/-! # The cache stays within its capacity

An evaluation works on the cache only by looking the leaves up, from left to right and up to the
first that is refused (`Cached.map_evaluate`).  So what every look-up keeps of the cache, every
evaluation keeps, and what new capacities and clearing keep besides holds of every cache that calls
can reach (`Cache.Reachable.of_steps`).

A cache is *bounded* when it holds at most as many conditions as its capacity (`Cache.Bounded`).
Every cache that calls can reach is bounded (`Cache.Reachable.bounded`).
Setting the capacity of a bounded cache changes nothing exactly if it is the capacity already
(`Cache.Bounded.setCapacity_eq_self_iff`).
-/
namespace Rulebook

/-! ## What an evaluation does to the cache -/

namespace Cached

/-- Looks texts up one after the other, up to the first that is refused. -/
def lookUp : List String → Cached Unit
  | [] => pure ()
  | text :: texts => do
    let _ ← condition text
    lookUp texts

theorem lookUp_append (texts texts' : List String) :
    lookUp (texts ++ texts') = (do
      lookUp texts
      lookUp texts') := by
  induction texts with
  | nil => rw [List.nil_append, lookUp, pure_bind]
  | cons text texts ih => simp only [List.cons_append, lookUp, ih, bind_assoc]

/-- **An evaluation looks the leaves up**, and does nothing else to the cache. -/
theorem map_evaluate (t : Tree) (r : Record) :
    (fun _ => ()) <$> t.evaluate r = lookUp t.leaves := by
  rw [Tree.evaluate, Tree.walk_eq_fold]
  induction t with
  | leaf text =>
    rw [Tree.leaves_leaf]
    simp only [Tree.fold, lookUp, map_bind, map_pure]
  | node c left right ihl ihr =>
    rw [Tree.leaves_node, lookUp_append, ← ihl, ← ihr]
    simp only [Tree.fold, map_eq_pure_bind, bind_assoc, pure_bind]

theorem runOn_map {α β : Type} (f : α → β) (x : Cached α) (k : Cache) :
    (f <$> x).runOn k = ((x.runOn k).1.map f, (x.runOn k).2) := by
  rw [map_eq_pure_bind, runOn_bind]
  rcases x.runOn k with ⟨a | e, k'⟩ <;> rfl

theorem cache_evaluate (t : Tree) (r : Record) (k : Cache) :
    ((t.evaluate r).runOn k).2 = ((lookUp t.leaves).runOn k).2 := by
  rw [← map_evaluate t r, runOn_map]

/-- What is kept by every look-up is kept by every evaluation. -/
theorem evaluate_keeps {p : Cache → Prop}
    (h : ∀ text k, p k → p ((condition text).runOn k).2) (t : Tree) (r : Record) {k : Cache}
    (hk : p k) : p ((t.evaluate r).runOn k).2 := by
  rw [cache_evaluate]
  generalize t.leaves = texts
  induction texts generalizing k with
  | nil => exact hk
  | cons text texts ih =>
    have hstep := h text k hk
    rw [lookUp, runOn_bind]
    rcases hr : (condition text).runOn k with ⟨e | c, k'⟩
    · rw [hr] at hstep
      exact hstep
    · rw [hr] at hstep
      exact ih hstep

end Cached

namespace Cache

/-- **What holds at the beginning and is kept by each step** holds of every cache that calls can
reach. -/
theorem Reachable.of_steps {p : Cache → Prop} (hinitial : p initial)
    (hcondition : ∀ text k, p k → p ((Cached.condition text).runOn k).2)
    (hsetCapacity : ∀ n k, p k → p (k.setCapacity n)) (hclear : ∀ k, p k → p k.clear) {k : Cache}
    (h : k.Reachable) : p k := by
  obtain ⟨calls, rfl⟩ := h
  refine List.foldlRecOn calls Cache.after hinitial fun k hk call _ => ?_
  cases call with
  | condition text => exact hcondition text k hk
  | evaluate t r => exact Cached.evaluate_keeps hcondition t r hk
  | setCapacity n => exact hsetCapacity n k hk
  | clear => exact hclear k hk
  | apply check s => exact hsetCapacity s.cacheCapacity k hk

/-! ## Bounded caches -/

/-- The cache holds at most as many conditions as its capacity. -/
def Bounded (k : Cache) : Prop := k.size ≤ k.capacity

variable {k : Cache}

theorem bounded_initial : initial.Bounded := Nat.zero_le _

theorem Bounded.keep (h : k.Bounded) (text : String) (c : Condition) :
    (k.keep text c).Bounded := by
  unfold Cache.keep
  split
  · exact h
  · rename_i hzero
    split
    · -- a full cache is emptied first
      exact Nat.one_le_iff_ne_zero.mpr hzero
    · rename_i hroom
      exact Nat.succ_le_of_lt (Nat.lt_of_not_le hroom)

theorem bounded_clear (k : Cache) : k.clear.Bounded := Nat.zero_le _

theorem bounded_setCapacity (k : Cache) (capacity : Nat) : (k.setCapacity capacity).Bounded := by
  unfold Cache.setCapacity
  split
  · exact Nat.zero_le _
  · rename_i hfits
    exact Nat.le_of_not_lt hfits

theorem Bounded.condition (h : k.Bounded) (text : String) :
    ((Cached.condition text).runOn k).2.Bounded := by
  rcases Cached.condition_cases k text with ⟨c, -, hrun⟩ | ⟨e, -, -, hrun⟩ | ⟨c, -, -, hrun⟩
  · rw [hrun]
    exact h
  · rw [hrun]
    exact h
  · rw [hrun]
    exact h.keep text c

/-- **A cache that calls can reach is bounded.** -/
theorem Reachable.bounded (h : k.Reachable) : k.Bounded :=
  h.of_steps bounded_initial (fun text _ hk => hk.condition text)
    (fun n k _ => bounded_setCapacity k n) fun k _ => bounded_clear k

/-! ## Setting the capacity -/

@[simp]
theorem capacity_setCapacity (k : Cache) (capacity : Nat) :
    (k.setCapacity capacity).capacity = capacity := by
  unfold setCapacity
  split <;> rfl

/-- The conditions stay together: all are kept if they fit, and all are lost otherwise. -/
theorem entries_setCapacity (k : Cache) (capacity : Nat) :
    (k.setCapacity capacity).entries = if capacity < k.size then [] else k.entries := by
  unfold setCapacity
  split <;> rfl

/-- Setting the capacity of a bounded cache changes nothing exactly if it has it already. -/
theorem Bounded.setCapacity_eq_self_iff (h : k.Bounded) (capacity : Nat) :
    k.setCapacity capacity = k ↔ capacity = k.capacity := by
  constructor
  · intro heq
    rw [← congrArg Cache.capacity heq, capacity_setCapacity]
  · rintro rfl
    exact if_neg (Nat.not_lt_of_le h)

end Cache

end Rulebook
