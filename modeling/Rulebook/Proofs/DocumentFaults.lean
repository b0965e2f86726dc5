import Rulebook.Proofs.DocumentAcceptance

/-! # Which error a document gives

A document can be refused for two sorts of reasons.  If its text spells no value that has the shape
of a node, the error is one of the document.  Otherwise only the meaning of a node can be missing,
because its word is no connective or because it lacks an operand (`NodeForm.fault`).

The nodes that have a say in the meaning are those that operators lead to from the root.  Listed in
pre-order (`Preorder`), each stands before its operands and the left operand before the right one.
The reader reports the first of them that is at fault (`errorOf_readNode`), although it reads the
operands of a node before it can know the word of the node, and in the order in which they are
written.  Hence the order of the keys changes no error (`fromJson_error`).
-/
namespace Rulebook

open Rulebook.Tree

namespace Json

/-- What is wrong with a node itself, whatever its operands are: an operator needs one of the two
words, and then both operands. -/
def NodeForm.fault (n : NodeForm) : Option RuleError :=
  if n.sort = .operand then none
  else if n.value ≠ "AND" ∧ n.value ≠ "OR" then some (.unknownOperator n.value)
  else if n.left.isNone ∨ n.right.isNone then some (.missingOperand n.value)
  else none

/-- The nodes of the value that operators lead to, in pre-order.  An operand that is missing adds
none, and what stands below the operands of an `operand` node is passed over. -/
inductive Preorder : Json → List NodeForm → Prop
  | operand {fields : List (Option String × Json)} {n : NodeForm} (hform : HasForm fields n)
    (hsort : n.sort = .operand) : Preorder (.object fields) [n]
  | operator {fields : List (Option String × Json)} {n : NodeForm} (hform : HasForm fields n)
    (hsort : n.sort = .operator) {ls rs : List NodeForm}
    (hleft : ∀ v, n.left = some v → Preorder v ls) (hnoLeft : n.left = none → ls = [])
    (hright : ∀ v, n.right = some v → Preorder v rs) (hnoRight : n.right = none → rs = []) :
    Preorder (.object fields) (n :: (ls ++ rs))

/-- The nodes of an operand that may be missing. -/
theorem exists_nodes_of_forall {P : Json → List NodeForm → Prop} {o : Option Json}
    (h : ∀ v, o = some v → ∃ ns, P v ns) :
    ∃ ns, (∀ v, o = some v → P v ns) ∧ (o = none → ns = []) := by
  cases o with
  | none =>
    refine ⟨[], fun v hv => ?_, fun _ => rfl⟩
    cases hv
  | some w =>
    obtain ⟨ns, hns⟩ := h w rfl
    refine ⟨ns, fun v hv => ?_, fun hnone => ?_⟩
    · obtain rfl := Option.some.inj hv
      exact hns
    · cases hnone

/-- A value of the shape has its nodes in pre-order. -/
theorem WellShaped.exists_preorder {v : Json} (h : v.WellShaped) : ∃ nodes, v.Preorder nodes := by
  induction h with
  | @node fields n hform _ _ ihLeft ihRight =>
    cases hsort : n.sort with
    | operand => exact ⟨_, .operand hform hsort⟩
    | operator =>
      obtain ⟨ls, hleft, hnoLeft⟩ := exists_nodes_of_forall ihLeft
      obtain ⟨rs, hright, hnoRight⟩ := exists_nodes_of_forall ihRight
      exact ⟨_, .operator hform hsort hleft hnoLeft hright hnoRight⟩

/-! ## The error that is reported -/

/-- The error that the reading of a node ended in. -/
def errorOf : Except RuleError Tree → Option RuleError
  | .error e => some e
  | .ok _ => none

theorem errorOf_eq_some_iff {r : Except RuleError Tree} {e : RuleError} :
    errorOf r = some e ↔ r = .error e := by
  cases r <;> simp [errorOf]

/-! An operator node is looked at before its operands, and the left operand before the right one. -/

theorem exists_connective {word : String} (h : ¬ (word ≠ "AND" ∧ word ≠ "OR")) :
    ∃ c, word = Connective.word c := by
  by_cases hand : word = "AND"
  · exact ⟨.and, hand⟩
  · exact ⟨.or, Classical.not_not.mp fun hor => h ⟨hand, hor⟩⟩

theorem errorOf_operator_unknown {word : String} (h : word ≠ "AND" ∧ word ≠ "OR")
    (left right : Option (Except RuleError Tree)) :
    errorOf (NodeFields.operator word left right) = some (.unknownOperator word) := by
  have hparse : Connective.parse word = .error (.unknownOperator word) := by
    rw [Connective.parse, Connective.ofWord?, if_neg h.1, if_neg h.2]
  rw [NodeFields.operator, hparse]
  rfl

theorem errorOf_operator_missing (c : Connective) {left right : Option (Except RuleError Tree)}
    (h : left = none ∨ right = none) :
    errorOf (NodeFields.operator c.word left right) = some (.missingOperand c.word) := by
  rw [NodeFields.operator, Connective.parse_word]
  rcases h with rfl | rfl
  · rfl
  · cases left <;> rfl

theorem errorOf_operator_some (c : Connective) (l r : Except RuleError Tree) :
    errorOf (NodeFields.operator c.word (some l) (some r)) = (errorOf l).or (errorOf r) := by
  rw [NodeFields.operator, Connective.parse_word]
  cases l with
  | error e => rfl
  | ok s => cases r <;> rfl

/-- **The reader reports the first node in pre-order that is at fault**, if there is one. -/
theorem errorOf_readNode {v : Json} {nodes : List NodeForm} (h : v.Preorder nodes)
    {r : Except RuleError Tree} (hr : readNode none v = .ok r) :
    errorOf r = nodes.findSome? NodeForm.fault := by
  induction h generalizing r with
  | operand hform hsort =>
    obtain ⟨-, _, n, left, right, heq, hform', -, -, rfl⟩ := readNode_eq_ok_iff.mp hr
    obtain rfl := Json.object.inj heq
    obtain rfl := hform.unique hform'
    simp [hsort, meaning, errorOf, NodeForm.fault]
  | @operator _ n hform hsort ls rs _ _ _ _ ihLeft ihRight =>
    obtain ⟨-, _, n', left, right, heq, hform', hleft, hright, rfl⟩ := readNode_eq_ok_iff.mp hr
    obtain rfl := Json.object.inj heq
    obtain rfl := hform.unique hform'
    obtain ⟨sort, word, l, r⟩ := n
    obtain rfl : sort = .operator := hsort
    rw [List.findSome?_cons, meaning]
    -- the node itself first: its word, then whether its operands are there
    by_cases hword : word ≠ "AND" ∧ word ≠ "OR"
    · rw [errorOf_operator_unknown hword]
      simp [NodeForm.fault, hword]
    obtain ⟨c, rfl⟩ := exists_connective hword
    cases hleft with
    | none =>
      rw [errorOf_operator_missing c (.inl rfl)]
      simp [NodeForm.fault, hword]
    | @some l s hs =>
      cases hright with
      | none =>
        rw [errorOf_operator_missing c (.inr rfl)]
        simp [NodeForm.fault, hword]
      | @some r t ht =>
        rw [errorOf_operator_some, ihLeft l rfl hs, ihRight r rfl ht, ← List.findSome?_append]
        simp [NodeForm.fault, hword]

/-- What is read of a text that spells a value of the shape. -/
theorem fromJson_of_readNode {s : String} {v : Json} (hv : Spells s.toList v)
    {r : Except RuleError Tree} (hr : readNode none v = .ok r) : fromJson s = r := by
  rw [fromJson, parse?_eq_some_iff.mpr hv]
  simp only [hr]

/-- A text that spells no value of the shape is refused as a document. -/
theorem kind_fromJson {s : String} (h : ∀ v, Spells s.toList v → ¬ v.WellShaped) :
    ∃ e, fromJson s = .error e ∧ e.kind = .deserialization := by
  rw [fromJson]
  cases hparse : parse? s with
  | none => exact ⟨_, rfl, rfl⟩
  | some v =>
    cases hread : readNode none v with
    | error fault =>
      simp only [hread]
      exact ⟨_, rfl, rfl⟩
    | ok r => exact absurd (wellShaped_of_readNode hread) (h v (parse?_eq_some_iff.mp hparse))

/-- **Which error a document gives.**  A text that spells no value with the shape of a node, at any
depth and below operands too, gives an error of the document, whatever its nodes mean.  Any other
text gives the fault of the first node in pre-order that has one, and no error if there is none;
neither the order of keys nor keys that a node does not know change what it gives. -/
theorem fromJson_error (s : String) :
    ((∀ v, Spells s.toList v → ¬ v.WellShaped) →
      ∃ e, fromJson s = .error e ∧ e.kind = .deserialization) ∧
    ∀ v, Spells s.toList v → v.WellShaped →
      (∃ nodes, v.Preorder nodes) ∧
      (∀ nodes, v.Preorder nodes →
        ∀ e, fromJson s = .error e ↔ nodes.findSome? NodeForm.fault = some e) ∧
      ∀ (s' : String) (v' : Json), Spells s'.toList v' → Alike v v' → fromJson s' = fromJson s := by
  refine ⟨kind_fromJson, fun v hv hshape => ?_⟩
  obtain ⟨r, hr⟩ := exists_readNode_iff.mpr hshape
  rw [fromJson_of_readNode hv hr]
  refine ⟨hshape.exists_preorder, fun nodes hnodes e => ?_, fun s' v' hv' hlike => ?_⟩
  · rw [← errorOf_readNode hnodes hr, errorOf_eq_some_iff]
  · exact fromJson_of_readNode hv' ((hlike.sameReading.node r).mp hr)

/-- The operand of an unknown word is read before the node that lacks its other operand; a leaf
without its text is worse than the word of its node. -/
theorem fromJson_error_deferred :
    fromJson ("\x7b\"right\":\x7b\"type\":\"operator\",\"value\":\"\"\x7d," ++
        "\"type\":\"operator\",\"value\":\"OR\"\x7d") = .error (.missingOperand "OR") ∧
      ∃ e, fromJson ("\x7b\"type\":\"operator\",\"value\":\"\"," ++
        "\"left\":\x7b\"type\":\"operand\"\x7d\x7d") = .error e ∧ e.kind = .deserialization := by
  let type (w : String) : Option String × Json := (some "type", text w)
  let value (w : String) : Option String × Json := (some "value", text w)
  let lacking : Json :=
    .object [(some "right", .object [type "operator", value ""]), type "operator", value "OR"]
  let torn : Json := .object [type "operator", value "", (some "left", .object [type "operand"])]
  have hlacking : ∀ s, parse? s = some lacking → fromJson s = .error (.missingOperand "OR") := by
    intro s hparse
    have hread : readNode none lacking = .ok (.error (.missingOperand "OR")) := by cbv
    obtain ⟨⟨nodes, hnodes⟩, hfirst, -⟩ := (fromJson_error s).2 lacking
      (parse?_eq_some_iff.mp hparse) (wellShaped_of_readNode hread)
    rw [hfirst nodes hnodes, ← errorOf_readNode hnodes hread]
    rfl
  have htorn : ∀ s, parse? s = some torn →
      ∃ e, fromJson s = .error e ∧ e.kind = .deserialization := by
    intro s hparse
    refine (fromJson_error s).1 fun v hv hshape => ?_
    have hread : readNode none torn = .error (.missingField "value") := by cbv
    obtain rfl := Option.some.inj (hparse.symm.trans (parse?_eq_some_iff.mpr hv))
    obtain ⟨r, hr⟩ := exists_readNode_iff.mpr hshape
    cases hread.symm.trans hr
  exact ⟨hlacking _ (by cbv), htorn _ (by cbv)⟩

end Json

end Rulebook
