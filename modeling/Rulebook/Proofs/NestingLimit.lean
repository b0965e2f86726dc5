import Rulebook.Proofs.DocumentAcceptance
import Rulebook.Proofs.DocumentRoundTrip
import Rulebook.Proofs.TreeFold

/-! # Reading documents with a limit on their depth

A node stands at depth one in itself, and an operand stands one deeper than its node (`NestsNode`).
What a node holds under other keys is no node and has no depth.

The reader with a limit takes a step down for every operand, also for those of an `operand` node.
So it finds the same as the reader without a limit as long as no node stands deeper than the limit,
and refuses the value otherwise (`readNode_limited_eq_ok_iff`).  The depth of a tree is the depth of
its document (`nestsNode_document_le_iff`), so exactly the trees that are not deeper than the limit
are read back (`fromJsonLimited_agrees`).
-/
namespace Rulebook

open Json

namespace Json

/-- A node stands at this depth in the value, which stands at depth one itself. -/
inductive NestsNode : Json → Nat → Prop
  | self (fields : List (Option String × Json)) : NestsNode (.object fields) 1
  | operand {fields : List (Option String × Json)} {n : NodeForm} (hform : HasForm fields n)
    {v : Json} (hv : n.left = some v ∨ n.right = some v) {d : Nat} (h : NestsNode v d) :
    NestsNode (.object fields) (d + 1)

/-- No node stands deeper than `k` if the operands leave one level for their node. -/
theorem nestsNode_le_iff {fields : List (Option String × Json)} {n : NodeForm}
    (hform : HasForm fields n) {k : Nat} :
    (∀ d, (Json.object fields).NestsNode d → d ≤ k) ↔
      k ≠ 0 ∧ (∀ v, n.left = some v → ∀ d, v.NestsNode d → d ≤ k - 1) ∧
        ∀ v, n.right = some v → ∀ d, v.NestsNode d → d ≤ k - 1 := by
  constructor
  · intro h
    have hk := h 1 (.self fields)
    refine ⟨by omega, fun v hv d hd => ?_, fun v hv d hd => ?_⟩
    · have := h (d + 1) (.operand hform (.inl hv) hd)
      omega
    · have := h (d + 1) (.operand hform (.inr hv) hd)
      omega
  · rintro ⟨hk, hleft, hright⟩ d hd
    cases hd with
    | self => omega
    | operand hform' hv hd =>
      obtain rfl := hform.unique hform'
      rcases hv with hv | hv
      · have := hleft _ hv _ hd
        omega
      · have := hright _ hv _ hd
        omega

end Json

namespace Tree

/-! ## Nodes -/

/-- A stronger relation to an operand that may be missing is the weaker one and what it lacks. -/
theorem rel_and_iff {α β : Type} {R S : α → β → Prop} {P : α → Prop} {o : Option α}
    {p : Option β} (h : ∀ a, o = some a → ∀ b, R a b ↔ S a b ∧ P a) :
    Option.Rel R o p ↔ Option.Rel S o p ∧ ∀ a, o = some a → P a := by
  cases o <;> cases p <;> simp_all

/-- **The reader with a limit** finds what the reader without one does, if no node stands deeper
than the limit. -/
theorem readNode_limited_eq_ok_iff {v : Json} {k : Nat} {r : Except RuleError Tree} :
    readNode (some k) v = .ok r ↔ readNode none v = .ok r ∧ ∀ d, v.NestsNode d → d ≤ k := by
  cases v with
  | atom a => simp [readNode]
  | array items => simp [readNode]
  | object fields =>
    -- below its node, an operand has one level less
    have hoperand : ∀ {key : String} {o : Option Json} {s : Option (Except RuleError Tree)},
        NullsThen o (valuesOf key fields) →
        (Option.Rel (fun w s => readNode (some (k - 1)) w = .ok s) o s ↔
          Option.Rel (fun w s => readNode none w = .ok s) o s ∧
            ∀ w, o = some w → ∀ d, w.NestsNode d → d ≤ k - 1) := by
      intro key o s hnulls
      refine rel_and_iff fun w hw b => ?_
      have hlt := (hw ▸ hnulls).sizeOf_lt
      exact readNode_limited_eq_ok_iff
    rw [readNode_eq_ok_iff, readNode_eq_ok_iff]
    constructor
    · rintro ⟨hroom, _, n, left, right, heq, hform, hleft, hright, hmeaning⟩
      obtain rfl := Json.object.inj heq
      obtain ⟨hleft, hleftDepth⟩ := (hoperand hform.left).mp hleft
      obtain ⟨hright, hrightDepth⟩ := (hoperand hform.right).mp hright
      have hk : k ≠ 0 := fun hk => hroom (congrArg some hk)
      have hnone : (none : Option Nat) ≠ some 0 := (Option.some_ne_none 0).symm
      exact ⟨⟨hnone, fields, n, left, right, rfl, hform, hleft, hright, hmeaning⟩,
        (nestsNode_le_iff hform).mpr ⟨hk, hleftDepth, hrightDepth⟩⟩
    · rintro ⟨⟨-, _, n, left, right, heq, hform, hleft, hright, hmeaning⟩, hdepth⟩
      obtain rfl := Json.object.inj heq
      obtain ⟨hk, hleftDepth, hrightDepth⟩ := (nestsNode_le_iff hform).mp hdepth
      exact ⟨fun hroom => hk (Option.some.inj hroom), fields, n, left, right, rfl, hform,
        (hoperand hform.left).mpr ⟨hleft, hleftDepth⟩,
        (hoperand hform.right).mpr ⟨hright, hrightDepth⟩, hmeaning⟩
termination_by sizeOf v
decreasing_by simpa only [Json.object.sizeOf_spec] using hlt

/-! ## Documents of trees -/

theorem hasForm_document_leaf (text : String) :
    HasForm [(some "type", .text "operand"), (some "value", .text text)]
      ⟨.operand, text, none, none⟩ :=
  ⟨by simp, rfl, rfl, .none, .none⟩

theorem hasForm_document_node (c : Connective) (left right : Tree) :
    HasForm [(some "type", .text "operator"), (some "value", .text c.word),
      (some "left", left.document), (some "right", right.document)]
      ⟨.operator, c.word, some left.document, some right.document⟩ := by
  have hnull : ∀ t : Tree, t.document ≠ Json.null := fun t h => by
    have := isNull_document t
    rw [h] at this
    cases this
  exact ⟨by simp, rfl, rfl, .operand (hnull left), .operand (hnull right)⟩

/-- The depth of a tree is the depth of its document. -/
theorem nestsNode_document_le_iff (t : Tree) {k : Nat} :
    (∀ d, t.document.NestsNode d → d ≤ k) ↔ t.depth ≤ k := by
  induction t generalizing k with
  | leaf text =>
    refine (nestsNode_le_iff (hasForm_document_leaf text)).trans ?_
    rw [depth_leaf]
    simp
    omega
  | node c left right ihLeft ihRight =>
    refine (nestsNode_le_iff (hasForm_document_node c left right)).trans ?_
    simp only [Option.some.injEq, forall_eq', ihLeft, ihRight, depth_node]
    omega

/-! ## Texts -/

theorem fromJsonLimited_eq_ok_iff_readNode {s : String} {v : Json} (hv : parse? s = some v)
    {t : Tree} : fromJsonLimited s = .ok t ↔ readNode (some 127) v = .ok (.ok t) := by
  rw [fromJsonLimited, hv]
  cases hr : readNode (some 127) v with
  | error fault => simp [nestingLimit, hr]
  | ok r => cases r <;> simp [nestingLimit, hr]

theorem kind_fromJsonLimited {s : String} {e : RuleError} (h : fromJsonLimited s = .error e) :
    e.kind = .deserialization := by
  unfold fromJsonLimited at h
  split at h
  · cases h
    rfl
  · split at h
    · cases h
      rfl
    · cases h
    · cases h
      split <;> rfl

theorem fromJsonLimited_eq_ok_iff {s : String} {t : Tree} : fromJsonLimited s = .ok t ↔
    fromJson s = .ok t ∧ ∃ v, Spells s.toList v ∧ ∀ d, v.NestsNode d → d ≤ 127 := by
  cases hparse : parse? s with
  | none => simp [fromJsonLimited, fromJson, hparse]
  | some v =>
    rw [fromJsonLimited_eq_ok_iff_readNode hparse, fromJson_eq_ok_iff_readNode hparse,
      readNode_limited_eq_ok_iff]
    simp only [← parse?_eq_some_iff, hparse, Option.some.injEq, exists_eq_left']

/-- **The limit changes nothing but the depth.**  With the limit a text is read as the trees that it
is read as without one, provided that none of its nodes stands deeper than 127, those below operands
included; in every other case it is refused as a document.  Thus a tree is read back from its text
exactly if its depth is at most 127. -/
theorem fromJsonLimited_agrees :
    (∀ (s : String) (t : Tree), fromJsonLimited s = .ok t ↔
      fromJson s = .ok t ∧ ∃ v, Spells s.toList v ∧ ∀ d, v.NestsNode d → d ≤ 127) ∧
    (∀ s : String,
      (∃ t, fromJson s = .ok t ∧ ∃ v, Spells s.toList v ∧ ∀ d, v.NestsNode d → d ≤ 127) ∨
        ∃ e, fromJsonLimited s = .error e ∧ e.kind = .deserialization) ∧
    ∀ t : Tree, fromJsonLimited t.toJson = .ok t ↔ t.depth ≤ 127 := by
  refine ⟨fun s t => fromJsonLimited_eq_ok_iff, fun s => ?_, fun t => ?_⟩
  · cases hread : fromJsonLimited s with
    | ok t => exact .inl ⟨t, fromJsonLimited_eq_ok_iff.mp hread⟩
    | error e => exact .inr ⟨e, rfl, kind_fromJsonLimited hread⟩
  · rw [fromJsonLimited_eq_ok_iff_readNode (parse?_toJson t), readNode_limited_eq_ok_iff,
      nestsNode_document_le_iff]
    exact and_iff_right (readNode_document t)

end Tree

end Rulebook
