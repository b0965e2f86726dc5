import Rulebook.Evaluate
import Rulebook.Proofs.TreeFold
import Rulebook.Settings

/-! # The cache never changes a result

`Tree.verdict` evaluates a tree without a cache.  A cache is *sound* when every condition it keeps
is what its text says (`Cache.Sound`).  On a sound cache, looking a text up answers as taking it
apart does, and an evaluation answers as `Tree.verdict` does; both leave the cache sound, also where
they fail (`Cached.Faithful`).

The state of the cache is driven by calls (`Cache.Call`).  The cache is sound at the beginning and
every call keeps it so, hence it is sound in every state that calls can reach
(`Cache.Reachable.sound`).  There texts are taken apart and trees are evaluated as if there were no
cache (`Cache.transparent`).
-/
namespace Rulebook

/-- The truth value of a tree on a record, each condition taken apart where it stands. -/
def Tree.verdict (r : Record) : Tree → Except RuleError Bool
  | .leaf text => do return (← Condition.parse text).holds r
  | .node c left right => do
    let a ← left.verdict r
    let b ← right.verdict r
    return c.apply a b

/-- Evaluation with the same walk, but with every condition taken apart where it stands. -/
def Tree.evaluateUncached (t : Tree) (r : Record) : Except RuleError Bool :=
  t.walk (fun text => do return (← Condition.parse text).holds r) fun c a b => pure (c.apply a b)

theorem Tree.evaluateUncached_eq_verdict (t : Tree) (r : Record) :
    t.evaluateUncached r = t.verdict r := by
  rw [evaluateUncached, walk_eq_fold]
  induction t with
  | leaf text => rfl
  | node c left right ihl ihr => rw [fold, verdict, ihl, ihr]

namespace Cache

/-- Every condition that is kept is what its text says. -/
def Sound (k : Cache) : Prop := ∀ e ∈ k.entries, Condition.parse e.1 = .ok e.2

theorem sound_initial : initial.Sound := fun _ he => absurd he List.not_mem_nil

variable {k : Cache}

theorem Sound.parse_of_get? (h : k.Sound) {text : String} {c : Condition}
    (hc : k.get? text = some c) : Condition.parse text = .ok c := by
  obtain ⟨before, rest, hk, -⟩ := List.lookup_eq_some_iff.mp hc
  exact h (text, c) (by rw [hk]; simp)

theorem Sound.keep (h : k.Sound) {text : String} {c : Condition}
    (hc : Condition.parse text = .ok c) : (k.keep text c).Sound := by
  unfold Cache.keep
  split
  · exact h
  · -- a full cache is emptied first, so the new condition is all that it keeps then
    split
    · exact List.forall_mem_singleton.mpr hc
    · exact List.forall_mem_cons.mpr ⟨hc, h⟩

theorem sound_clear (k : Cache) : k.clear.Sound := fun _ he => absurd he List.not_mem_nil

theorem Sound.setCapacity (h : k.Sound) (capacity : Nat) : (k.setCapacity capacity).Sound := by
  unfold Cache.setCapacity
  split
  · exact fun _ he => absurd he List.not_mem_nil
  · exact h

end Cache

/-! ## Work on a sound cache -/

namespace Cached

variable {α β : Type}

/-- On every sound cache the work `x` gives the result `y` and leaves the cache sound. -/
def Faithful (x : Cached α) (y : Except RuleError α) : Prop :=
  ∀ k : Cache, k.Sound → (x.runOn k).1 = y ∧ (x.runOn k).2.Sound

theorem faithful_pure (a : α) : Faithful (pure a) (pure a) := fun _ hk => ⟨rfl, hk⟩

theorem runOn_bind (x : Cached α) (f : α → Cached β) (k : Cache) :
    (x >>= f).runOn k =
      match x.runOn k with
      | (.ok a, k) => (f a).runOn k
      | (.error e, k) => (.error e, k) := by
  unfold runOn
  rw [ExceptT.run_bind, StateT.run_bind]
  rcases (ExceptT.run x).run k with ⟨a | e, k'⟩ <;> rfl

theorem Faithful.bind {x : Cached α} {y : Except RuleError α} {f : α → Cached β}
    {g : α → Except RuleError β} (hx : Faithful x y) (hf : ∀ a, Faithful (f a) (g a)) :
    Faithful (x >>= f) (y >>= g) := by
  intro k hk
  obtain ⟨hy, hk'⟩ := hx k hk
  rw [runOn_bind]
  rcases hr : x.runOn k with ⟨e | a, k'⟩
  · -- where the first part fails, the cache is left as that part left it
    rw [hr] at hy hk'
    obtain rfl := hy
    exact ⟨rfl, hk'⟩
  · rw [hr] at hy hk'
    obtain rfl := hy
    exact hf a k' hk'

/-- What a look-up can do: answer from the cache, refuse the text, or take it apart and keep the
condition. -/
theorem condition_cases (k : Cache) (text : String) :
    (∃ c, k.get? text = some c ∧ (condition text).runOn k = (.ok c, k)) ∨
    (∃ e, k.get? text = none ∧ Condition.parse text = .error e ∧
      (condition text).runOn k = (.error e, k)) ∨
    ∃ c, k.get? text = none ∧ Condition.parse text = .ok c ∧
      (condition text).runOn k = (.ok c, k.keep text c) := by
  unfold runOn condition
  simp only [ExceptT.run_mk, StateT.run]
  cases hget : k.get? text with
  | some c => exact .inl ⟨c, rfl, rfl⟩
  | none =>
    cases hparse : Condition.parse text with
    | error e => exact .inr (.inl ⟨e, rfl, rfl, rfl⟩)
    | ok c => exact .inr (.inr ⟨c, rfl, rfl, rfl⟩)

theorem faithful_condition (text : String) : Faithful (condition text) (Condition.parse text) := by
  intro k hk
  rcases condition_cases k text with ⟨c, hget, hrun⟩ | ⟨e, -, hparse, hrun⟩ | ⟨c, -, hparse, hrun⟩
  · rw [hrun]
    exact ⟨(hk.parse_of_get? hget).symm, hk⟩
  · rw [hrun]
    exact ⟨hparse.symm, hk⟩
  · rw [hrun]
    exact ⟨hparse.symm, hk.keep hparse⟩

/-- **An evaluation answers as it would without a cache.** -/
theorem faithful_evaluate (t : Tree) (r : Record) : Faithful (t.evaluate r) (t.verdict r) := by
  rw [Tree.evaluate, Tree.walk_eq_fold]
  induction t with
  | leaf text =>
    rw [Tree.fold, Tree.verdict]
    exact (faithful_condition text).bind fun c => faithful_pure (c.holds r)
  | node c left right ihl ihr =>
    rw [Tree.fold, Tree.verdict]
    exact ihl.bind fun a => ihr.bind fun b => faithful_pure (c.apply a b)

end Cached

/-! ## The states that calls can reach -/

namespace Cache

/-- A call that can change the cache. -/
inductive Call
  /-- a text is looked up, and taken apart if it is not kept -/
  | condition (text : String)
  | evaluate (t : Tree) (r : Record)
  | setCapacity (capacity : Nat)
  | clear
  /-- settings are put in force under some check of log directives -/
  | apply (check : LogCheck) (s : Settings)

/-- The cache after a call, whether the call fails or not. -/
def after (k : Cache) : Call → Cache
  | .condition text => ((Cached.condition text).runOn k).2
  | .evaluate t r => ((t.evaluate r).runOn k).2
  | .setCapacity capacity => k.setCapacity capacity
  | .clear => k.clear
  | .apply check s => (s.apply check k).2

/-- The caches that some sequence of calls leaves, from the beginning. -/
def Reachable (k : Cache) : Prop := ∃ calls : List Call, calls.foldl after initial = k

theorem reachable_initial : initial.Reachable := ⟨[], rfl⟩

theorem Reachable.after {k : Cache} (h : k.Reachable) (call : Call) : (k.after call).Reachable := by
  obtain ⟨calls, rfl⟩ := h
  exact ⟨calls ++ [call], by rw [List.foldl_append]; rfl⟩

/-- Every call keeps the cache sound. -/
theorem Sound.after {k : Cache} (h : k.Sound) (call : Call) : (k.after call).Sound := by
  cases call with
  | condition text => exact (Cached.faithful_condition text k h).2
  | evaluate t r => exact (Cached.faithful_evaluate t r k h).2
  | setCapacity capacity => exact h.setCapacity capacity
  | clear => exact sound_clear k
  | apply check s => exact h.setCapacity s.cacheCapacity

theorem Sound.foldl_after {k : Cache} (h : k.Sound) (calls : List Call) :
    (calls.foldl Cache.after k).Sound := by
  induction calls generalizing k with
  | nil => exact h
  | cons call calls ih => exact ih (h.after call)

/-- **A cache that calls can reach is sound.** -/
theorem Reachable.sound {k : Cache} (h : k.Reachable) : k.Sound := by
  obtain ⟨calls, rfl⟩ := h
  exact sound_initial.foldl_after calls

/-- **The cache never changes a result.**  Whatever calls went before, failing ones included, every
condition that is kept is what its text says; so looking a text up answers as taking it apart does,
with the same condition or the same error, and evaluating a tree answers as evaluating it without a
cache does. -/
theorem transparent (calls : List Call) :
    (∀ e ∈ (calls.foldl Cache.after initial).entries, Condition.parse e.1 = .ok e.2) ∧
      (∀ text, ((Cached.condition text).runOn (calls.foldl Cache.after initial)).1 =
        Condition.parse text) ∧
      ∀ (t : Tree) (r : Record), ((t.evaluate r).runOn (calls.foldl Cache.after initial)).1 =
        t.evaluateUncached r := by
  have hk : (calls.foldl Cache.after initial).Sound := Reachable.sound ⟨calls, rfl⟩
  refine ⟨hk, ?_, ?_⟩
  · intro text
    exact (Cached.faithful_condition text _ hk).1
  · intro t r
    rw [Tree.evaluateUncached_eq_verdict]
    exact (Cached.faithful_evaluate t r _ hk).1

end Cache

end Rulebook
