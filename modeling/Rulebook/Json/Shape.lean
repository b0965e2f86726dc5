import Rulebook.Error
import Rulebook.Json.Reader

/-!
# Taking JSON values apart

What the readers of documents, records and settings share: naming what was found in place of what
was wanted, and taking a string. A fault found in a text that is no exact JSON is reported as that,
whatever else is wrong with it.
-/

namespace Rulebook

namespace Json

/-- What a value is, for a message, if it is exact. -/
def found? : Json → Option Found
  | .atom .null => some .null
  | .atom (.bool b) => some (.bool b)
  | .atom (.number n) => n.value?.map .number
  | .atom (.text s) => s.map .text
  | .array _ => some .array
  | .object _ => some .object

/-- The fault that a value is not what was wanted. -/
def mismatch (v : Json) (wanted : Wanted) : ReadFault :=
  match v.found? with
  | some found => .wrongType found wanted
  | none => .notJson

/-- The string that a value is. -/
def asText (v : Json) : Except ReadFault String :=
  match v with
  | .atom (.text (some s)) => .ok s
  | _ => .error (v.mismatch .text)

/-- The fault to report for a text in which `fault` was found. -/
def blame (text : String) (fault : ReadFault) : ReadFault :=
  if isExactText text then fault else .notJson

end Json

end Rulebook
