import Mathlib.Data.Finset.Card
import Rulebook.Record

/-! # What a record holds

Inserting fields one after the other leaves the last value of every key (`Record.get?_ofList`) and
as many values as there are keys (`Record.size_ofList`).  Of fields with different keys every value
is the value of its key, whatever the order (`Record.get?_ofList_of_nodup`).  Two records that give
the same values are of the same size, and they are the same if every value is the same as itself
(`Record.same_of_get?_eq`).
-/
namespace Rulebook

namespace Record

variable {r t : Record} {key : String} {values : List (String × Scalar)}

/-- Gives several attributes values, one after the other. -/
def insertAll (r : Record) (values : List (String × Scalar)) : Record :=
  values.foldl (fun r f => r.insert f.1 f.2) r

theorem insertAll_cons (f : String × Scalar) :
    r.insertAll (f :: values) = (r.insert f.1 f.2).insertAll values := rfl

/-- The attributes that have a value. -/
def keys (r : Record) : Finset String := (r.fields.map Prod.fst).toFinset

theorem size_eq_card_keys (r : Record) : r.size = r.keys.card := by
  rw [keys, List.toFinset_card_of_nodup r.nodup, List.length_map, size]

theorem keys_insert (attr : String) (x : Scalar) :
    (r.insert attr x).keys = Insert.insert attr r.keys := by
  ext key
  rw [keys, List.mem_toFinset, insert, mem_keys_putField, Finset.mem_insert, keys,
    List.mem_toFinset]

theorem keys_insertAll (r : Record) (values : List (String × Scalar)) :
    (r.insertAll values).keys = r.keys ∪ (values.map Prod.fst).toFinset := by
  induction values generalizing r with
  | nil => simp [insertAll]
  | cons f values ih =>
    rw [insertAll_cons, ih, keys_insert, List.map_cons, List.toFinset_cons, Finset.insert_union,
      Finset.union_insert]

/-- **As many values as keys.** -/
theorem size_ofList (values : List (String × Scalar)) :
    (ofList values).size = (values.map Prod.fst).toFinset.card := by
  have h := keys_insertAll empty values
  rw [size_eq_card_keys]
  exact congrArg Finset.card (h.trans (Finset.empty_union _))

theorem get?_insertAll (r : Record) (values : List (String × Scalar)) (key : String) :
    (r.insertAll values).get? key = (values.reverse.lookup key).or (r.get? key) := by
  induction values generalizing r with
  | nil => rfl
  | cons f values ih =>
    obtain ⟨k, x⟩ := f
    rw [insertAll_cons, ih, get?_insert, List.reverse_cons, List.lookup_append, Option.or_assoc]
    by_cases h : key = k
    · simp [h]
    · simp [h, List.lookup_cons, beq_eq_false_iff_ne.mpr h]

/-- **The last value of a key is in force.** -/
theorem get?_ofList (values : List (String × Scalar)) (key : String) :
    (ofList values).get? key = values.reverse.lookup key := by
  have h := get?_insertAll empty values key
  rwa [get?_empty, Option.or_none] at h

/-- Fields with different keys are looked up by being there. -/
theorem lookup_eq_some_iff_mem (h : (values.map Prod.fst).Nodup) {x : Scalar} :
    values.lookup key = some x ↔ (key, x) ∈ values := by
  induction values with
  | nil => simp
  | cons f values ih =>
    obtain ⟨k, y⟩ := f
    rw [List.map_cons, List.nodup_cons] at h
    by_cases hk : key = k
    · subst hk
      have hnot : (key, x) ∉ values := fun hmem => h.1 (List.mem_map.mpr ⟨_, hmem, rfl⟩)
      simp [hnot, eq_comm]
    · rw [List.lookup_cons, beq_eq_false_iff_ne.mpr hk, List.mem_cons, Prod.mk.injEq, ih h.2]
      simp [hk]

/-- **Without repeated keys the order does not matter.** -/
theorem get?_ofList_of_nodup (h : (values.map Prod.fst).Nodup) {x : Scalar} :
    (ofList values).get? key = some x ↔ (key, x) ∈ values := by
  have hreverse : (values.reverse.map Prod.fst).Nodup := by
    rw [List.map_reverse, List.nodup_reverse]
    exact h
  rw [get?_ofList, lookup_eq_some_iff_mem hreverse, List.mem_reverse]

theorem get?_eq_some_iff_mem {x : Scalar} : r.get? key = some x ↔ (key, x) ∈ r.fields :=
  lookup_eq_some_iff_mem r.nodup

theorem mem_keys_iff : key ∈ r.keys ↔ ∃ x, r.get? key = some x := by
  simp [keys, get?_eq_some_iff_mem]

theorem same_of_get?_eq (h : ∀ key, r.get? key = t.get? key)
    (hself : ∀ key x, r.get? key = some x → x.same x = true) :
    r.size = t.size ∧ r.same t = true := by
  have hkeys : r.keys = t.keys := by
    ext key
    rw [mem_keys_iff, mem_keys_iff, h]
  have hsize : r.size = t.size := by
    rw [size_eq_card_keys, size_eq_card_keys, hkeys]
  refine ⟨hsize, Bool.and_eq_true_iff.mpr ⟨decide_eq_true hsize, List.all_eq_true.mpr ?_⟩⟩
  rintro ⟨key, x⟩ hmem
  have hx := get?_eq_some_iff_mem.mpr hmem
  rw [← h, hx]
  exact hself key x hx

end Record

end Rulebook
