import Rulebook.Proofs.ReaderAgreement

/-! # Dicts are read back as the trees they come from

The writer of dicts keeps its dicts in a heap and links them before it fills them.  When it is done,
every dict that was to be filled holds its tree (`Holds`), and no other dict has changed
(`fillDicts_spec`): the places that are still to be filled are different from one another and from
those of the dicts it makes.  So the dict of a tree is the one that recursion on the tree gives
(`toHost_eq_dict`).

That dict is the document of the tree, entry by entry (`toJson?_dict`), and the reader of host
values takes it apart again (`readHost_treeDict`).  Together this is `toHost_roundTrip`.
-/
namespace Rulebook

open Json

namespace Tree

/-! ## The heap -/

/-- The dict of a tree, by recursion on the tree. -/
def dict : Tree → HostValue
  | .leaf text => .ofFields [("type", .text "operand"), ("value", .text text)]
  | .node c left right =>
    .ofFields [("type", .text "operator"), ("value", .text c.word), ("left", left.dict),
      ("right", right.dict)]

/-- The dict at the place holds the tree.  Operands stand behind their node. -/
inductive Holds (heap : HostHeap) : Nat → Tree → Prop
  | leaf {place : Nat} {text : String} (h : heap[place]? = some (leafCells text)) :
    Holds heap place (.leaf text)
  | node {place l r : Nat} {c : Connective} {left right : Tree}
    (h : heap[place]? = some (nodeCells c l r)) (hl : place < l) (hr : place < r)
    (hleft : Holds heap l left) (hright : Holds heap r right) :
    Holds heap place (.node c left right)

variable {heap : HostHeap} {place : Nat}

theorem Holds.lt_size {t : Tree} (h : Holds heap place t) : place < heap.size := by
  cases h with
  | leaf h => exact (Array.getElem?_eq_some_iff.mp h).1
  | node h => exact (Array.getElem?_eq_some_iff.mp h).1

/-- The dict at a place is the one of the tree that it holds. -/
theorem Holds.dictAt_eq {t : Tree} (h : Holds heap place t) : dictAt heap place = t.dict := by
  induction h with
  | leaf h =>
    rw [dictAt, Array.getD_eq_getD_getElem?, h]
    simp [leafCells, dict]
  | node h hl hr hleft hright ihLeft ihRight =>
    rw [dictAt, Array.getD_eq_getD_getElem?, h]
    simp [nodeCells, dict, hl, hr, hleft.lt_size, hright.lt_size, ihLeft, ihRight]

/-! ## Filling -/

@[simp] theorem size_linkOperands (heap : HostHeap) (place : Nat) (c : Connective) :
    (linkOperands heap place c).size = heap.size + 2 := by
  simp [linkOperands]

theorem getElem?_linkOperands_self (c : Connective) (h : place < heap.size) :
    (linkOperands heap place c)[place]? = some (nodeCells c heap.size (heap.size + 1)) := by
  rw [linkOperands, Array.getElem?_setIfInBounds_self_of_lt]
  simp only [Array.size_push]
  omega

theorem getElem?_linkOperands_of_ne (c : Connective) {q : Nat} (hq : q < heap.size)
    (hne : q ≠ place) : (linkOperands heap place c)[q]? = heap[q]? := by
  rw [linkOperands, Array.getElem?_setIfInBounds_ne hne.symm, Array.getElem?_push,
    Array.getElem?_push, if_neg (by simp; omega), if_neg (by omega)]

/-- **Filling fills the dicts that are still to be filled**, and changes none that was there. -/
theorem fillDicts_spec {pending : List (Tree × Nat)} (hmade : ∀ e ∈ pending, e.2 < heap.size)
    (hnodup : (pending.map Prod.snd).Nodup) :
    (∀ q, q < heap.size → q ∉ pending.map Prod.snd → (fillDicts pending heap)[q]? = heap[q]?) ∧
      ∀ e ∈ pending, Holds (fillDicts pending heap) e.2 e.1 := by
  fun_induction fillDicts pending heap with
  | case1 heap => exact ⟨fun _ _ _ => rfl, List.forall_mem_nil _⟩
  | case2 text place pending heap ih =>
    obtain ⟨hplace, hmade⟩ := List.forall_mem_cons.mp hmade
    rw [List.map_cons, List.nodup_cons] at hnodup
    obtain ⟨hkept, hfilled⟩ := ih (by simpa using hmade) hnodup.2
    rw [Array.size_setIfInBounds] at hkept
    refine ⟨fun q hq hne => ?_, List.forall_mem_cons.mpr ⟨.leaf ?_, hfilled⟩⟩
    · rw [List.map_cons, List.mem_cons, not_or] at hne
      rw [hkept q hq hne.2, Array.getElem?_setIfInBounds_ne (Ne.symm hne.1)]
    · rw [hkept place hplace hnodup.1, Array.getElem?_setIfInBounds_self_of_lt hplace]
  | case3 c left right place pending heap ih =>
    obtain ⟨hplace, hmade⟩ := List.forall_mem_cons.mp hmade
    rw [List.map_cons, List.nodup_cons] at hnodup
    -- the new places are behind all others, so they are different from those in the list
    have hnew : ∀ q, heap.size ≤ q → q ∉ pending.map Prod.snd := by
      intro q hq hmem
      obtain ⟨e, he, rfl⟩ := List.mem_map.mp hmem
      have := hmade e he
      omega
    have hmade' : ∀ e ∈ (left, heap.size) :: (right, heap.size + 1) :: pending,
        e.2 < (linkOperands heap place c).size := by
      rw [size_linkOperands, List.forall_mem_cons, List.forall_mem_cons]
      refine ⟨by omega, by omega, fun e he => ?_⟩
      have := hmade e he
      omega
    have hnodup' :
        (((left, heap.size) :: (right, heap.size + 1) :: pending).map Prod.snd).Nodup := by
      simp only [List.map_cons, List.nodup_cons, List.mem_cons, not_or]
      exact ⟨⟨by omega, hnew _ (Nat.le_refl _)⟩, hnew _ (Nat.le_succ _), hnodup.2⟩
    obtain ⟨hkept, hfilled⟩ := ih hmade' hnodup'
    -- what was there before stays, but for the dict of the node
    have hold : ∀ q, q < heap.size → q ∉ pending.map Prod.snd →
        (fillDicts ((left, heap.size) :: (right, heap.size + 1) :: pending)
          (linkOperands heap place c))[q]? = (linkOperands heap place c)[q]? := by
      intro q hq hmem
      refine hkept q (by rw [size_linkOperands]; omega) ?_
      simp only [List.map_cons, List.mem_cons, not_or]
      exact ⟨by omega, by omega, hmem⟩
    obtain ⟨hleft, hfilled⟩ := List.forall_mem_cons.mp hfilled
    obtain ⟨hright, hfilled⟩ := List.forall_mem_cons.mp hfilled
    refine ⟨fun q hq hne => ?_, List.forall_mem_cons.mpr ⟨?_, hfilled⟩⟩
    · rw [List.map_cons, List.mem_cons, not_or] at hne
      rw [hold q hq hne.2, getElem?_linkOperands_of_ne c hq hne.1]
    · refine .node ?_ hplace (Nat.lt_succ_of_lt hplace) hleft hright
      rw [hold place hplace hnodup.1, getElem?_linkOperands_self c hplace]

/-- **The dict of a tree** is the one that recursion gives. -/
theorem toHost_eq_dict (t : Tree) : t.toHost = t.dict := by
  have hspec : Holds (fillDicts [(t, 0)] #[[]]) 0 t :=
    (fillDicts_spec (by simp) (by simp)).2 (t, 0) List.mem_cons_self
  exact hspec.dictAt_eq

/-! ## Writing and reading -/

/-- The dict of a tree is its document. -/
theorem toJson?_dict (t : Tree) : t.dict.toJson? = some t.document := by
  induction t with
  | leaf text => rfl
  | node c left right ihLeft ihRight =>
    simp [dict, HostValue.ofFields, HostValue.toJson?, HostValue.entriesToJson?,
      HostValue.jsonText?, ihLeft, ihRight, document, ofFields]

theorem lookupPresent_dict {key : String} {entries : List (HostValue × HostValue)} {t : Tree}
    (h : HostValue.lookup key entries = some t.dict) :
    HostValue.lookupPresent key entries = some t.dict := by
  rw [HostValue.lookupPresent, h]
  cases t <;> rfl

/-- The dict of a tree is read as the tree. -/
theorem readHost_treeDict (t : Tree) : readHost t.dict = .ok t := by
  induction t with
  | leaf text => exact @readHost_dict _ .operand text rfl rfl
  | node c left right ihLeft ihRight =>
    let entries : List (HostValue × HostValue) := [(.text "type", .text "operator"),
      (.text "value", .text c.word), (.text "left", left.dict), (.text "right", right.dict)]
    have hleft : HostValue.lookupPresent "left" entries = some left.dict := lookupPresent_dict rfl
    have hright : HostValue.lookupPresent "right" entries = some right.dict :=
      lookupPresent_dict rfl
    have hread : readHost (.dict entries) = _ := @readHost_dict entries .operator c.word rfl rfl
    rw [hleft, hright, Option.map_some, Option.map_some, ihLeft, ihRight, meaning,
      NodeFields.operator, Connective.parse_word] at hread
    exact hread

end Tree

namespace HostValue

/-- The dict has the keys of a node and no others, in this order, and so have the dicts of its
operands. -/
inductive HasNodeKeys : HostValue → Prop
  | operand {entries : List (HostValue × HostValue)}
    (htype : lookup "type" entries = some (.text "operand"))
    (hkeys : entries.map Prod.fst = [.text "type", .text "value"]) : HasNodeKeys (.dict entries)
  | operator {entries : List (HostValue × HostValue)}
    (htype : lookup "type" entries = some (.text "operator"))
    (hkeys : entries.map Prod.fst = [.text "type", .text "value", .text "left", .text "right"])
    {left right : HostValue} (hl : lookup "left" entries = some left)
    (hr : lookup "right" entries = some right) (hleft : HasNodeKeys left)
    (hright : HasNodeKeys right) : HasNodeKeys (.dict entries)

theorem hasNodeKeys_dict (t : Tree) : t.dict.HasNodeKeys := by
  induction t with
  | leaf text => exact .operand rfl rfl
  | node c left right ihLeft ihRight => exact .operator rfl rfl rfl rfl ihLeft ihRight

end HostValue

namespace Tree

/-- **Dicts round trip.**  Written as JSON, the dict of a tree is the text of the tree's document,
key by key and in the same order; it is read back as the tree; and it has the keys of a node and no
others, at every depth. -/
theorem toHost_roundTrip (t : Tree) :
    t.toHost.toJson?.map Json.compact = some t.toJson ∧ ofHost t.toHost = .ok t ∧
      t.toHost.HasNodeKeys := by
  rw [toHost_eq_dict, ofHost_eq_readHost, toJson?_dict]
  exact ⟨rfl, readHost_treeDict t, HostValue.hasNodeKeys_dict t⟩

end Tree

end Rulebook
