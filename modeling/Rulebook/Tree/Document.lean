import Rulebook.Json.Shape
import Rulebook.Tree

/-!
# Trees as documents

A leaf is the object `type: operand, value: text`; a joined expression is the object
`type: operator, value: word` with its operands under `left` and `right`.

A reader takes the fields of a node in any order and passes over fields it does not know. It finds
two sorts of faults. A fault of shape, such as a field that is missing or has the wrong type, is
reported for the first place in the text that has one. Only in a document without faults of shape
can a node be without meaning, when its word is no connective or an operand is missing; then the
first such node counts, an operator before its operands and the left operand before the right one.
What stands under the operands of an `operand` node has to have the right shape but no meaning.
-/

namespace Rulebook

namespace Tree

/-- The document of a tree. -/
def document : Tree → Json
  | .leaf text => .ofFields [("type", .text "operand"), ("value", .text text)]
  | .node c left right =>
    .ofFields [("type", .text "operator"), ("value", .text c.word), ("left", left.document),
      ("right", right.document)]

/-- The text of the document of a tree. -/
def toJson (t : Tree) : String := t.document.compact

/-- The fields of a node, as far as they are read. An operand is a tree or the reason why the
document of the operand denotes none. -/
structure NodeFields where
  type : Option String
  value : Option String
  left : Option (Except RuleError Tree)
  right : Option (Except RuleError Tree)

namespace NodeFields

/-- No field is read yet. -/
def empty : NodeFields := ⟨none, none, none, none⟩

/-- The tree that an operator node denotes. -/
def operator (word : String) (left right : Option (Except RuleError Tree)) :
    Except RuleError Tree := do
  let c ← Connective.parse word
  match left, right with
  | some left, some right =>
    let l ← left
    let r ← right
    return .node c l r
  | _, _ => .error (.missingOperand word)

/-- The tree that a node with these fields denotes. -/
def finish (f : NodeFields) : Except ReadFault (Except RuleError Tree) :=
  match f.type, f.value with
  | none, _ => .error (.missingField "type")
  | _, none => .error (.missingField "value")
  | some type, some value =>
    if type = "operand" then .ok (.ok (.leaf value))
    else if type = "operator" then .ok (operator value f.left f.right)
    else .error (.unknownNodeType type)

end NodeFields

mutual

/-- Reads a node. With `room`, only so many nodes may be nested. -/
def readNode (room : Option Nat) : Json → Except ReadFault (Except RuleError Tree)
  | .object fields =>
    match room with
    | some 0 => .error .tooDeep
    | _ => (readFields (room.map Nat.pred) fields .empty).bind NodeFields.finish
  | .atom a => .error ((Json.atom a).mismatch .node)
  | .array items => .error ((Json.array items).mismatch .node)

/-- Reads the fields of a node after those already read. An operand that is null is none. -/
def readFields (room : Option Nat) :
    List (Option String × Json) → NodeFields → Except ReadFault NodeFields
  | [], f => .ok f
  | (none, _) :: _, _ => .error .notJson
  | (some key, v) :: rest, f =>
    if key = "type" then
      if f.type.isSome then .error (.duplicateField key)
      else v.asText.bind fun s => readFields room rest { f with type := some s }
    else if key = "value" then
      if f.value.isSome then .error (.duplicateField key)
      else v.asText.bind fun s => readFields room rest { f with value := some s }
    else if key = "left" then
      if f.left.isSome then .error (.duplicateField key)
      else if v.isNull then readFields room rest f
      else (readNode room v).bind fun t => readFields room rest { f with left := some t }
    else if key = "right" then
      if f.right.isSome then .error (.duplicateField key)
      else if v.isNull then readFields room rest f
      else (readNode room v).bind fun t => readFields room rest { f with right := some t }
    else readFields room rest f

end

/-- Reads the text of a document, however deep it is. -/
def fromJson (text : String) : Except RuleError Tree :=
  match Json.parse? text with
  | none => .error (.document .notJson)
  | some v =>
    match readNode none v with
    | .error fault => .error (.document (Json.blame text fault))
    | .ok t => t

/-- How many nodes may be nested for a reader with a limit. -/
def nestingLimit : Nat := 127

/-- Reads the text of a document with a limit on its depth. A document that denotes no tree is
refused like one with a fault of shape, for the reason that it denotes none. -/
def fromJsonLimited (text : String) : Except RuleError Tree :=
  match Json.parse? text with
  | none => .error (.document .notJson)
  | some v =>
    match readNode (some nestingLimit) v with
    | .error fault => .error (.document (Json.blame text fault))
    | .ok (.ok t) => .ok t
    | .ok (.error cause) =>
      .error (if Json.isExactText text then .documentOf cause else .document .notJson)

end Tree

end Rulebook
