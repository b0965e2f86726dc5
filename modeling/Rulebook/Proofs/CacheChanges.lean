import Rulebook.Proofs.EagerEvaluation

/-! # The cache loses all its conditions at once

A look-up does one of three things: it answers from the cache, it refuses the text, or it takes the
text apart and keeps the condition (`Cached.condition_cases`).  Only the last one can change the
cache, and only for a text that is not kept yet, so no text is kept twice
(`Cache.Reachable.distinct`).

No call takes single conditions out of the cache.  After a look-up, and after setting the capacity
or clearing, either all conditions of before are kept or none of them is
(`Cache.entries_after_cases`).  So over any number of calls a condition can only have been lost at a
moment when all were (`Cache.suffix_or_lost`).  An evaluation is a number of look-ups
(`Cached.exists_lookUps_evaluate`).
-/
namespace Rulebook

namespace Cache

variable {k : Cache}

/-- What keeping a condition makes of the entries. -/
theorem keep_eq (k : Cache) (text : String) (c : Condition) :
    k.keep text c = if k.capacity = 0 then k
      else if k.size < k.capacity then ⟨k.capacity, (text, c) :: k.entries⟩
      else ⟨k.capacity, [(text, c)]⟩ := by
  unfold keep
  split
  · rfl
  · by_cases hroom : k.size < k.capacity
    · rw [if_neg (Nat.not_le_of_lt hroom), if_pos hroom]
    · rw [if_pos (Nat.le_of_not_lt hroom), if_neg hroom]

/-- A condition that is kept is found. -/
theorem get?_keep (hcapacity : k.capacity ≠ 0) (text : String) (c : Condition) :
    (k.keep text c).get? text = some c := by
  rw [keep_eq, if_neg hcapacity]
  split <;> simp [get?]

/-! ## No text is kept twice -/

/-- No two conditions are kept for the same text. -/
def Distinct (k : Cache) : Prop := (k.entries.map Prod.fst).Nodup

theorem not_mem_of_get?_eq_none {text : String} (h : k.get? text = none) :
    text ∉ k.entries.map Prod.fst := by
  intro hmem
  obtain ⟨e, he, rfl⟩ := List.mem_map.mp hmem
  have hne := List.lookup_eq_none_iff.mp h e he
  simp at hne

theorem Distinct.keep (h : k.Distinct) {text : String} (hget : k.get? text = none)
    (c : Condition) : (k.keep text c).Distinct := by
  rw [keep_eq]
  split
  · exact h
  · split
    · exact List.nodup_cons.mpr ⟨not_mem_of_get?_eq_none hget, h⟩
    · exact List.pairwise_singleton _ _

theorem Distinct.setCapacity (h : k.Distinct) (capacity : Nat) :
    (k.setCapacity capacity).Distinct := by
  unfold Distinct
  rw [entries_setCapacity]
  split
  · exact List.nodup_nil
  · exact h

theorem Distinct.condition (h : k.Distinct) (text : String) :
    ((Cached.condition text).runOn k).2.Distinct := by
  rcases Cached.condition_cases k text with ⟨c, -, hrun⟩ | ⟨e, -, -, hrun⟩ | ⟨c, hget, -, hrun⟩
  · rw [hrun]
    exact h
  · rw [hrun]
    exact h
  · rw [hrun]
    exact h.keep hget c

/-- **A cache that calls can reach keeps no text twice.** -/
theorem Reachable.distinct (h : k.Reachable) : k.Distinct :=
  h.of_steps List.nodup_nil (fun text _ hk => hk.condition text) (fun n _ hk => hk.setCapacity n)
    fun _ _ => List.nodup_nil

/-! ## All or none -/

/-- Whether a call is more than one step of the cache. -/
def Call.isEvaluation : Call → Bool
  | .evaluate .. => true
  | _ => false

theorem entries_setCapacity_cases (k : Cache) (capacity : Nat) :
    k.entries <:+ (k.setCapacity capacity).entries ∨
      ∀ e ∈ k.entries, e ∉ (k.setCapacity capacity).entries := by
  rw [entries_setCapacity]
  split
  · exact .inr fun _ _ => List.not_mem_nil
  · exact .inl (List.suffix_refl _)

/-- After one step all conditions of before are still kept, or none of them is. -/
theorem entries_after_cases (k : Cache) {call : Call} (h : call.isEvaluation = false) :
    k.entries <:+ (k.after call).entries ∨ ∀ e ∈ k.entries, e ∉ (k.after call).entries := by
  cases call with
  | condition text =>
    rw [after]
    rcases Cached.condition_cases k text with ⟨c, -, hrun⟩ | ⟨e, -, -, hrun⟩ | ⟨c, hget, -, hrun⟩
    · rw [hrun]
      exact .inl (List.suffix_refl _)
    · rw [hrun]
      exact .inl (List.suffix_refl _)
    · rw [hrun, keep_eq]
      split
      · exact .inl (List.suffix_refl _)
      · split
        · exact .inl (List.suffix_cons _ _)
        · refine .inr fun e he hmem => ?_
          obtain rfl := List.mem_singleton.mp hmem
          exact not_mem_of_get?_eq_none hget (List.mem_map_of_mem he)
  | evaluate t r => cases h
  | setCapacity capacity => exact entries_setCapacity_cases k capacity
  | clear => exact .inr fun _ _ => List.not_mem_nil
  | apply check s => exact entries_setCapacity_cases k s.cacheCapacity

/-- **Conditions are lost together.**  After any number of steps all conditions of the beginning are
still kept, or there was a moment when none of them was. -/
theorem suffix_or_lost (k : Cache) (calls : List Call)
    (h : ∀ call ∈ calls, call.isEvaluation = false) :
    k.entries <:+ (calls.foldl after k).entries ∨
      ∃ before rest, calls = before ++ rest ∧
        ∀ e ∈ k.entries, e ∉ (before.foldl after k).entries := by
  induction calls generalizing k with
  | nil => exact .inl (List.suffix_refl _)
  | cons call calls ih =>
    obtain ⟨hcall, hcalls⟩ := List.forall_mem_cons.mp h
    rcases entries_after_cases k hcall with hkept | hlost
    · rcases ih (k.after call) hcalls with hall | ⟨before, rest, rfl, hnone⟩
      · exact .inl (hkept.trans hall)
      · exact .inr ⟨call :: before, rest, rfl, fun e he => hnone e (hkept.mem he)⟩
    · exact .inr ⟨[call], calls, rfl, hlost⟩

end Cache

/-- To the cache, an evaluation is a number of look-ups. -/
theorem Cached.exists_lookUps_evaluate {k : Cache} (hk : k.Sound) (t : Tree) (r : Record) :
    ∃ texts, texts <+: t.leaves ∧ ((t.evaluate r).runOn k).2 = k.lookUps texts := by
  by_cases h : ∀ text ∈ t.leaves, Condition.Accepted text
  · exact ⟨t.leaves, List.prefix_refl _, by rw [Tree.runOn_evaluate_accepted hk r h]⟩
  · simp only [not_forall] at h
    obtain ⟨text, hmem, hrefused⟩ := h
    obtain ⟨before, text, after, hleaves, hbefore, htext⟩ :=
      Tree.exists_first_refused ⟨text, hmem, hrefused⟩
    refine ⟨before ++ [text], ⟨after, ?_⟩, ?_⟩
    · rw [hleaves, List.append_assoc, List.singleton_append]
    · rw [Tree.runOn_evaluate_refused hk r hleaves hbefore htext]

namespace Cache

/-- How a cache behaves that calls can reach. -/
structure Orderly (k : Cache) : Prop where
  /-- it holds at most as many conditions as its capacity -/
  size_le : k.size ≤ k.capacity
  /-- every condition counts once -/
  distinct : (k.entries.map Prod.fst).Nodup
  /-- a text that is kept is answered, and nothing changes -/
  hit : ∀ text c, k.get? text = some c → (Cached.condition text).runOn k = (.ok c, k)
  /-- a text that is refused changes nothing -/
  refused : ∀ text e, Condition.parse text = .error e →
    (Cached.condition text).runOn k = (.error e, k)
  /-- a new condition is added if there is room, and is the only one left otherwise -/
  miss : ∀ text c, k.get? text = none → Condition.parse text = .ok c →
    (Cached.condition text).runOn k = (.ok c,
      if k.capacity = 0 then k
      else if k.size < k.capacity then ⟨k.capacity, (text, c) :: k.entries⟩
      else ⟨k.capacity, [(text, c)]⟩)
  /-- a text that was just taken apart is kept, if anything can be -/
  kept : ∀ text c, k.capacity ≠ 0 → ((Cached.condition text).runOn k).1 = .ok c →
    ((Cached.condition text).runOn k).2.get? text = some c
  /-- all conditions stay if they fit the new capacity, and none does otherwise -/
  setCapacity : ∀ n, k.setCapacity n = ⟨n, if k.size ≤ n then k.entries else []⟩
  /-- clearing leaves the capacity -/
  clear : k.clear = ⟨k.capacity, []⟩
  /-- an evaluation looks some of the leaves up, from the first one on -/
  evaluate : ∀ t r, ∃ texts, texts <+: Tree.leaves t ∧
    ((t.evaluate r).runOn k).2 = (texts.map Call.condition).foldl after k
  /-- what is lost is lost at a moment when all is -/
  lost : ∀ calls : List Call, (∀ call ∈ calls, call.isEvaluation = false) →
    k.entries <:+ (calls.foldl after k).entries ∨
      ∃ before rest, calls = before ++ rest ∧
        ∀ e ∈ k.entries, e ∉ (before.foldl after k).entries

/-- **The cache stays within its capacity and loses all its conditions at once**, whatever calls
went before. -/
theorem orderly_of_reachable {k : Cache} (h : k.Reachable) : k.Orderly where
  size_le := h.bounded
  distinct := h.distinct
  hit := by
    intro text c hget
    rcases Cached.condition_cases k text with ⟨c', hget', hrun⟩ | ⟨e, hnone, -⟩ | ⟨c', hnone, -⟩
    · rw [hrun, ← Option.some.inj (hget.symm.trans hget')]
    · cases hget.symm.trans hnone
    · cases hget.symm.trans hnone
  refused := by
    intro text e hparse
    rcases Cached.condition_cases k text with
      ⟨c, hget, -⟩ | ⟨e', -, hparse', hrun⟩ | ⟨c, -, hparse', -⟩
    · -- what is kept can be taken apart
      cases hparse.symm.trans (h.sound.parse_of_get? hget)
    · rw [hrun, ← Except.error.inj (hparse.symm.trans hparse')]
    · cases hparse.symm.trans hparse'
  miss := by
    intro text c hnone hparse
    rcases Cached.condition_cases k text with
      ⟨c', hget, -⟩ | ⟨e, -, hparse', -⟩ | ⟨c', -, hparse', hrun⟩
    · cases hnone.symm.trans hget
    · cases hparse.symm.trans hparse'
    · obtain rfl := Except.ok.inj (hparse.symm.trans hparse')
      rw [hrun, keep_eq]
  kept := by
    intro text c hcapacity hok
    rcases Cached.condition_cases k text with ⟨c', hget, hrun⟩ | ⟨e, -, -, hrun⟩ | ⟨c', -, -, hrun⟩
    · rw [hrun] at hok ⊢
      rw [hget, Except.ok.inj hok]
    · rw [hrun] at hok
      cases hok
    · rw [hrun] at hok ⊢
      rw [get?_keep hcapacity, Except.ok.inj hok]
  setCapacity := by
    intro n
    by_cases hfits : k.size ≤ n
    · rw [Cache.setCapacity, if_neg (Nat.not_lt_of_le hfits), if_pos hfits]
    · rw [Cache.setCapacity, if_pos (Nat.lt_of_not_le hfits), if_neg hfits]
  clear := rfl
  evaluate := Cached.exists_lookUps_evaluate h.sound
  lost := suffix_or_lost k

/-- A full cache of one condition, after a larger one was cut down. -/
theorem orderly_of_reachable_full :
    let k := [.condition "a > 1", .condition "b > 2", .setCapacity 1, .condition "c > 3"].foldl
      after initial
    k.Reachable ∧ k.Orderly ∧ k.size = 1 ∧ k.capacity = 1 := by
  intro k
  have hk : k.Reachable := ⟨_, rfl⟩
  exact ⟨hk, orderly_of_reachable hk, by decide +kernel, by decide +kernel⟩

end Cache

end Rulebook
