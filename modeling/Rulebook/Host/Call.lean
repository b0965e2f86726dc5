import Rulebook.Host.Value
import Rulebook.Error

/-!
# Arguments of calls

A host program hands over values as arguments. An argument of the wrong type fails the call before
anything is done. So does an integer that is out of the range that is wanted, and a text that is not
whole, since the texts of the engine are. All other failures are errors of the engine itself.
-/

namespace Rulebook

/-- Why a call by a host program fails. -/
inductive CallError
  /-- an argument has the wrong type -/
  | wrongType
  /-- an integer is out of range -/
  | outOfRange
  /-- a text is not whole -/
  | notWhole
  /-- the engine refuses -/
  | refused (e : RuleError)
deriving DecidableEq, Repr

namespace HostValue

/-- An argument that has to be a text. -/
def asText : HostValue → Except CallError String
  | .text s => .ok s
  | .brokenText _ => .error .notWhole
  | _ => .error .wrongType

/-- An argument that has to be a list. -/
def asList : HostValue → Except CallError (List HostValue)
  | .list items => .ok items
  | _ => .error .wrongType

/-- An argument that has to be a list of texts. -/
def asTexts (v : HostValue) : Except CallError (List String) :=
  v.asList.bind fun items => items.mapM asText

/-- An argument that has to be a natural number below a bound. A truth value counts as one or
zero. -/
def asNatural (bound : Nat) : HostValue → Except CallError Nat
  | .int i => if 0 ≤ i ∧ i < bound then .ok i.toNat else .error .outOfRange
  | .bool b => .ok b.toNat
  | _ => .error .wrongType

/-- The word of a connective, `AND` unless it is given. -/
def operatorWord : Option HostValue → Except CallError String
  | none => .ok Connective.and.word
  | some v => v.asText

end HostValue

end Rulebook
