import Rulebook.Proofs.Slots
import Rulebook.Proofs.Stages
import Rulebook.Tree.Document

/-! # Which values the reader of nodes accepts

The fields of a node are four slots (`nodeSlots`): its sort and its text, each to be filled once,
and its two operands, each to be filled at most once, with nulls in front that fill nothing.  What a
slot is given are the values under its key, in their order, so neither the order of the keys nor
what stands under other keys has a say (`readFields_eq_ok_iff`).

An object whose slots come out well is a node of the form that its slots tell (`NodeForm`,
`HasForm`), and it has one form only (`HasForm.unique`).  Reading a node is reading its form, and
then the operands of the form (`readNode_eq_ok_iff`).
-/
namespace Rulebook

theorem Connective.parse_eq_ok_iff {w : String} {c : Connective} :
    Connective.parse w = .ok c ↔ w = c.word := by
  rw [← ofWord?_eq_some_iff, Connective.parse]
  cases ofWord? w <;> simp

@[simp] theorem Connective.parse_word (c : Connective) : Connective.parse c.word = .ok c :=
  Connective.parse_eq_ok_iff.mpr rfl

namespace Json

variable {v : Json}

/-! ## Forms -/

/-- A string fills a slot for texts. -/
def ReadsText (v : Json) (slot : Option String) : Prop := ∃ s, v = text s ∧ slot = some s

/-- Null leaves a slot for operands as it is, and a node fills it. -/
def ReadsOperand (room : Option Nat) (v : Json) (slot : Option (Except RuleError Tree)) : Prop :=
  v = null ∧ slot = none ∨ v ≠ null ∧ ∃ r, Tree.readNode room v = .ok r ∧ slot = some r

theorem isNull_iff : v.isNull = true ↔ v = null := by
  unfold isNull
  split
  · simp [null]
  · rename_i h
    simp only [Bool.false_eq_true, false_iff]
    exact h

theorem asText_eq_ok_iff {s : String} : v.asText = .ok s ↔ v = text s := by
  unfold asText
  split
  · rename_i s'
    simp [text]
  · rename_i h
    constructor
    · intro hs
      cases hs
    · rintro rfl
      exact absurd rfl (h s)

/-- The sorts of nodes. -/
inductive NodeSort
  | operand
  | operator
deriving DecidableEq

/-- How a node names its sort. -/
def NodeSort.word : NodeSort → String
  | .operand => "operand"
  | .operator => "operator"

theorem NodeSort.word_injective : Function.Injective word := by
  intro s t h
  cases s <;> cases t <;> first | rfl | exact absurd h (by decide)

/-- What a node holds, as far as it counts. -/
structure NodeForm where
  sort : NodeSort
  value : String
  left : Option Json
  right : Option Json

/-- The values are nulls, with the operand behind them if there is one.  Null is no operand. -/
inductive NullsThen : Option Json → List Json → Prop
  | none : NullsThen none []
  | operand {v : Json} (hv : v ≠ null) : NullsThen (some v) [v]
  | null {operand : Option Json} {vs : List Json} (h : NullsThen operand vs) :
    NullsThen operand (null :: vs)

/-- An object with these fields is a node of the form. -/
structure HasForm (fields : List (Option String × Json)) (n : NodeForm) : Prop where
  whole : ∀ p ∈ fields, p.1.isSome
  type : valuesOf "type" fields = [text n.sort.word]
  value : valuesOf "value" fields = [text n.value]
  left : NullsThen n.left (valuesOf "left" fields)
  right : NullsThen n.right (valuesOf "right" fields)

theorem nullsThen_null_cons_iff {operand : Option Json} {vs : List Json} :
    NullsThen operand (null :: vs) ↔ NullsThen operand vs := by
  constructor
  · rintro (_ | hv | h)
    · exact absurd rfl hv
    · exact h
  · exact .null

theorem nullsThen_cons_iff {operand : Option Json} {v : Json} {vs : List Json} (hv : v ≠ null) :
    NullsThen operand (v :: vs) ↔ vs = [] ∧ operand = some v := by
  constructor
  · rintro (_ | _ | _)
    · exact ⟨rfl, rfl⟩
    · exact absurd rfl hv
  · rintro ⟨rfl, rfl⟩
    exact .operand hv

/-- The values tell the operand. -/
theorem NullsThen.unique {o p : Option Json} {vs : List Json} (ho : NullsThen o vs)
    (hp : NullsThen p vs) : o = p := by
  induction ho with
  | none =>
    cases hp
    rfl
  | operand hv => exact ((nullsThen_cons_iff hv).mp hp).2.symm
  | null _ ih => exact ih (nullsThen_null_cons_iff.mp hp)

/-- A node has one form only. -/
theorem HasForm.unique {fields : List (Option String × Json)} {n m : NodeForm}
    (hn : HasForm fields n) (hm : HasForm fields m) : n = m := by
  obtain ⟨sort, value, left, right⟩ := n
  obtain ⟨sort', value', left', right'⟩ := m
  have htype := hn.type.symm.trans hm.type
  have hvalue := hn.value.symm.trans hm.value
  obtain rfl := hn.left.unique hm.left
  obtain rfl := hn.right.unique hm.right
  simp only [text, List.cons.injEq, Json.atom.injEq, Atom.text.injEq, Option.some.injEq,
    and_true] at htype hvalue
  obtain rfl := NodeSort.word_injective htype
  obtain rfl := hvalue
  rfl

/-- A slot for texts is filled by one string. -/
theorem filled_text_iff {vs : List Json} {s : String} :
    Filled ReadsText none vs (some s) ↔ vs = [text s] := by
  cases vs with
  | nil => simp
  | cons v vs =>
    rw [Filled.cons_iff]
    constructor
    · rintro ⟨-, _, ⟨s', rfl, rfl⟩, h⟩
      obtain ⟨rfl, hs⟩ := Filled.some_iff.mp h
      rw [Option.some.inj hs]
    · intro h
      obtain ⟨rfl, rfl⟩ := List.cons.inj h
      exact ⟨rfl, some s, ⟨s, rfl, rfl⟩, .done _⟩

/-- A slot for operands is filled by what is read of the operand. -/
theorem filled_operand_iff {room : Option Nat} {vs : List Json}
    {slot : Option (Except RuleError Tree)} :
    Filled (ReadsOperand room) none vs slot ↔
      ∃ operand, NullsThen operand vs ∧
        Option.Rel (fun v r => Tree.readNode room v = .ok r) operand slot := by
  induction vs with
  | nil =>
    rw [Filled.nil_iff]
    constructor
    · rintro rfl
      exact ⟨none, .none, .none⟩
    · rintro ⟨_, ⟨⟩, ⟨⟩⟩
      rfl
  | cons v vs ih =>
    rw [Filled.cons_iff]
    by_cases hv : v = null
    · subst hv
      simp only [nullsThen_null_cons_iff, ← ih, ReadsOperand, true_and, ne_eq, not_true_eq_false,
        false_and, or_false, exists_eq_left]
    · constructor
      · rintro ⟨-, _, ⟨hnull, -⟩ | ⟨-, r, hr, rfl⟩, h⟩
        · exact absurd hnull hv
        · obtain ⟨rfl, rfl⟩ := Filled.some_iff.mp h
          exact ⟨some v, .operand hv, .some hr⟩
      · rintro ⟨operand, hnulls, hslot⟩
        obtain ⟨rfl, rfl⟩ := (nullsThen_cons_iff hv).mp hnulls
        cases hslot with
        | some hr => exact ⟨rfl, _, .inr ⟨hv, _, hr, rfl⟩, .done _⟩

end Json

open Json

namespace Tree

/-! ## Reading -/

variable {room : Option Nat} {f g : NodeFields} {fields : List (Option String × Json)}

/-- The names of the slots of a node. -/
inductive NodeSlot
  | type
  | value
  | left
  | right
deriving DecidableEq

namespace NodeSlot

/-- The key of a slot. -/
def key : NodeSlot → String
  | .type => "type"
  | .value => "value"
  | .left => "left"
  | .right => "right"

/-- What fills a slot. -/
abbrev Content : NodeSlot → Type
  | .type | .value => String
  | .left | .right => Except RuleError Tree

end NodeSlot

/-- The slots of a node. -/
def nodeSlots (room : Option Nat) : Slots NodeFields NodeSlot NodeSlot.Content where
  key := NodeSlot.key
  Reads
    | .type | .value => ReadsText
    | .left | .right => ReadsOperand room
  get
    | f, .type => f.type
    | f, .value => f.value
    | f, .left => f.left
    | f, .right => f.right
  put
    | f, .type, s => { f with type := s }
    | f, .value, s => { f with value := s }
    | f, .left, t => { f with left := t }
    | f, .right, t => { f with right := t }
  key_injective := by
    intro i j h
    cases i <;> cases j <;> first | rfl | exact absurd h (by decide)
  get_injective := by
    rintro ⟨type, value, left, right⟩ ⟨type', value', left', right'⟩ h
    obtain rfl := congrFun h .type
    obtain rfl := congrFun h .value
    obtain rfl := congrFun h .left
    obtain rfl := congrFun h .right
    rfl
  get_put := by
    intro f i a
    funext j
    cases i <;> cases j <;> rfl

/-- One more value for a slot for texts, if the rest is read by `go`. -/
theorem fillText_eq_ok_iff {slot : Option String} {v : Json} {fault : ReadFault}
    (go : Option String → Except ReadFault NodeFields) :
    (if slot.isSome then .error fault else v.asText.bind fun s => go (some s)) = .ok g ↔
      slot = none ∧ ∃ next, ReadsText v next ∧ go next = .ok g := by
  simp only [fill_eq_ok_iff go, asText_eq_ok_iff, ReadsText]

/-- One more value for a slot for operands, if the rest is read by `go`. -/
theorem fillOperand_eq_ok_iff {slot : Option (Except RuleError Tree)} {v : Json}
    {fault : ReadFault} (go : Option (Except RuleError Tree) → Except ReadFault NodeFields)
    {kept : Except ReadFault NodeFields} (hkept : slot = none → kept = go none) :
    (if slot.isSome then .error fault
      else if v.isNull then kept
      else (readNode room v).bind fun t => go (some t)) = .ok g ↔
      slot = none ∧ ∃ next, ReadsOperand room v next ∧ go next = .ok g := by
  cases slot with
  | some s => simp
  | none =>
    rw [hkept rfl]
    by_cases hv : v = null
    · simp [ReadsOperand, hv, isNull_iff.mpr]
    · have hnull : ¬ v.isNull = true := fun h => hv (isNull_iff.mp h)
      rw [if_neg (by simp), if_neg hnull, except_bind_eq_ok_iff]
      constructor
      · rintro ⟨r, hr, hgo⟩
        exact ⟨rfl, some r, .inr ⟨hv, r, hr, rfl⟩, hgo⟩
      · rintro ⟨-, _, ⟨hnull, -⟩ | ⟨-, r, hr, rfl⟩, hgo⟩
        · exact absurd hnull hv
        · exact ⟨r, hr, hgo⟩

/-- **Reading fields is filling the slots**, each with the values under its key. -/
theorem readFields_eq_ok_iff :
    readFields room fields f = .ok g ↔ (nodeSlots room).Fill fields f g := by
  refine (nodeSlots room).eq_ok_iff_fill (readFields room) (fun f => by rw [readFields]) ?_ ?_ ?_
  · intro v rest f g h
    rw [readFields] at h
    cases h
  · intro i v rest f g
    cases i with
    | type =>
      show readFields room ((some "type", v) :: rest) f = .ok g ↔ _
      rw [readFields, if_pos rfl]
      exact fillText_eq_ok_iff fun s => readFields room rest { f with type := s }
    | value =>
      show readFields room ((some "value", v) :: rest) f = .ok g ↔ _
      rw [readFields, if_neg (by decide), if_pos rfl]
      exact fillText_eq_ok_iff fun s => readFields room rest { f with value := s }
    | left =>
      show readFields room ((some "left", v) :: rest) f = .ok g ↔ _
      rw [readFields, if_neg (by decide), if_neg (by decide), if_pos rfl]
      exact fillOperand_eq_ok_iff (fun t => readFields room rest { f with left := t })
        fun h => by rw [← h]
    | right =>
      show readFields room ((some "right", v) :: rest) f = .ok g ↔ _
      rw [readFields, if_neg (by decide), if_neg (by decide), if_neg (by decide), if_pos rfl]
      exact fillOperand_eq_ok_iff (fun t => readFields room rest { f with right := t })
        fun h => by rw [← h]
  · intro k v rest f h
    have htype : k ≠ "type" := (h .type).symm
    have hvalue : k ≠ "value" := (h .value).symm
    have hleft : k ≠ "left" := (h .left).symm
    have hright : k ≠ "right" := (h .right).symm
    rw [readFields, if_neg htype, if_neg hvalue, if_neg hleft, if_neg hright]

/-- What a node of some sort means, if its operands mean this. -/
def meaning (sort : NodeSort) (value : String) (left right : Option (Except RuleError Tree)) :
    Except RuleError Tree :=
  match sort with
  | .operand => .ok (.leaf value)
  | .operator => NodeFields.operator value left right

theorem finish_eq_ok_iff {r : Except RuleError Tree} :
    f.finish = .ok r ↔ ∃ sort value, f.type = some (NodeSort.word sort) ∧ f.value = some value ∧
      meaning sort value f.left f.right = r := by
  obtain ⟨_ | type, _ | value, left, right⟩ := f
  case some.some =>
    constructor
    · intro h
      by_cases hoperand : type = "operand"
      · subst hoperand
        exact ⟨.operand, value, rfl, rfl, Except.ok.inj h⟩
      · by_cases hoperator : type = "operator"
        · subst hoperator
          exact ⟨.operator, value, rfl, rfl, Except.ok.inj h⟩
        · simp [NodeFields.finish, hoperand, hoperator] at h
    · rintro ⟨sort, value', htype, hvalue, rfl⟩
      obtain rfl := Option.some.inj hvalue
      obtain rfl := Option.some.inj htype
      cases sort <;> rfl
  all_goals simp [NodeFields.finish]

theorem readNode_object (hroom : room ≠ some 0) : readNode room (.object fields) =
    (readFields (room.map Nat.pred) fields .empty).bind NodeFields.finish := by
  rw [readNode]
  exact hroom

/-- **Reading a node is reading its form**, and then the operands of the form. -/
theorem readNode_eq_ok_iff {v : Json} {r : Except RuleError Tree} :
    readNode room v = .ok r ↔ room ≠ some 0 ∧ ∃ fields n left right, v = .object fields ∧
      HasForm fields n ∧
      Option.Rel (fun w s => readNode (room.map Nat.pred) w = .ok s) n.left left ∧
      Option.Rel (fun w s => readNode (room.map Nat.pred) w = .ok s) n.right right ∧
      meaning n.sort n.value left right = r := by
  constructor
  · intro h
    cases v with
    | atom a => simp [readNode] at h
    | array items => simp [readNode] at h
    | object fields =>
      have hroom : room ≠ some 0 := by
        rintro rfl
        simp [readNode] at h
      rw [readNode_object hroom] at h
      obtain ⟨f, hf, hr⟩ := except_bind_eq_ok_iff.mp h
      have hfill := readFields_eq_ok_iff.mp hf
      have htype : Filled ReadsText none (valuesOf "type" fields) f.type := hfill.slot .type
      have hvalue : Filled ReadsText none (valuesOf "value" fields) f.value := hfill.slot .value
      obtain ⟨sort, value, hsort, htext, hmeaning⟩ := finish_eq_ok_iff.mp hr
      rw [hsort] at htype
      rw [htext] at hvalue
      obtain ⟨left, hl, hleft⟩ := filled_operand_iff.mp (hfill.slot .left)
      obtain ⟨right, hr, hright⟩ := filled_operand_iff.mp (hfill.slot .right)
      exact ⟨hroom, fields, ⟨sort, value, left, right⟩, f.left, f.right, rfl,
        ⟨hfill.whole, filled_text_iff.mp htype, filled_text_iff.mp hvalue, hl, hr⟩, hleft, hright,
        hmeaning⟩
  · rintro ⟨hroom, fields, ⟨sort, value, l, r⟩, left, right, rfl, hform, hleft, hright, rfl⟩
    have hf : (nodeSlots (room.map Nat.pred)).Fill fields .empty
        ⟨some sort.word, some value, left, right⟩ := by
      refine ⟨hform.whole, fun i => ?_⟩
      cases i with
      | type => exact filled_text_iff.mpr hform.type
      | value => exact filled_text_iff.mpr hform.value
      | left => exact filled_operand_iff.mpr ⟨l, hform.left, hleft⟩
      | right => exact filled_operand_iff.mpr ⟨r, hform.right, hright⟩
    rw [readNode_object hroom, except_bind_eq_ok_iff]
    exact ⟨_, readFields_eq_ok_iff.mpr hf, finish_eq_ok_iff.mpr ⟨sort, value, rfl, rfl, rfl⟩⟩

/-- A text is a document of what the reader of nodes makes of its value. -/
theorem fromJson_eq_ok_iff_readNode {text : String} {v : Json} (hv : parse? text = some v)
    {t : Tree} : fromJson text = .ok t ↔ readNode none v = .ok (.ok t) := by
  rw [fromJson, hv]
  cases hr : readNode none v <;> simp [hr]

end Tree

end Rulebook
