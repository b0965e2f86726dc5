import Rulebook.Host.Value
import Rulebook.Error
import Rulebook.Record

/-!
# Records as dicts

A record is handed over as a dict of texts to numbers and texts. A truth value is no number here,
and an integer is one only if the nearest double-precision number is finite.
-/

namespace Rulebook

namespace Record

/-- The scalar that a host value is. -/
def scalarOfHost? : HostValue → Option Scalar
  | .text s => some (.text s)
  | .int i => if (Binary64.ofInt i).isFinite then some (.number (.ofInt i)) else none
  | .float x => some (.number x)
  | _ => none

/-- Reads the entries of a dict after those already read. -/
def readEntries (r : Record) : List (HostValue × HostValue) → Except RuleError Record
  | [] => .ok r
  | (.text attr, v) :: rest =>
    match scalarOfHost? v with
    | some x => readEntries (r.insert attr x) rest
    | none => .error (.hostValue (.unsupported attr))
  | _ :: _ => .error (.hostValue .keyNotText)

/-- The record that a host value is. -/
def ofHost : HostValue → Except RuleError Record
  | .dict entries => readEntries .empty entries
  | _ => .error (.hostValue .dataNotDict)

end Record

end Rulebook
