import Rulebook.Json.Shape
import Rulebook.Record

/-!
# Records as JSON

A record is read from a JSON object of numbers and strings. Every field has to be one of these, also
a field whose key is given again later; of the values of one key the last is in force. Nesting is
limited: the record counts as one level, and a value that takes it to 128 levels is too deep, before
it is found to be no number or string.
-/

namespace Rulebook

namespace Record

/-- How deep a value of a record may be nested. -/
def nestingLimit : Nat := 126

/-- The scalar that a JSON value is. -/
def readScalar (v : Json) : Except ReadFault Scalar :=
  match v with
  | .atom (.number n) =>
    match n.value? with
    | some x => .ok (.number x.toBinary64)
    | none => .error .notJson
  | .atom (.text (some s)) => .ok (.text s)
  | .atom (.text none) => .error .notJson
  | _ => .error (if v.nesting ≤ nestingLimit then .notScalar else .tooDeep)

/-- Reads the fields of an object after those already read. -/
def readFields (r : Record) : List (Option String × Json) → Except ReadFault Record
  | [] => .ok r
  | (none, _) :: _ => .error .notJson
  | (some key, v) :: rest => (readScalar v).bind fun x => readFields (r.insert key x) rest

/-- The record that a JSON value is. -/
def ofJson (v : Json) : Except ReadFault Record :=
  match v with
  | .object fields => readFields .empty fields
  | _ => .error (v.mismatch .record)

/-- Reads the text of a record. -/
def fromJson (text : String) : Except RuleError Record :=
  match Json.parse? text with
  | none => .error (.document .notJson)
  | some v => (ofJson v).mapError fun fault => .document (Json.blame text fault)

end Record

end Rulebook
