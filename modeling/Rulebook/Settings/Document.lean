import Rulebook.Json.Shape
import Rulebook.Settings

/-!
# Settings as JSON

An object names the settings it gives, each at most once, and may hold other fields, which are
passed over. An array gives the settings by their places and may end early.
-/

namespace Rulebook

namespace Settings

/-- The policy that a JSON value names. -/
def readPolicy (v : Json) : Except RuleError ParenPolicy :=
  match v.asText with
  | .ok s => (ParenPolicy.parse s).mapError .settingsOf
  | .error fault => .error (.settings fault)

/-- The capacity that a JSON value is. -/
def readCapacity (v : Json) : Except RuleError Nat :=
  match v with
  | .atom (.number n) =>
    match n.value? with
    | some (.integer i) =>
      if i < 0 then .error (.settings (.negativeSize i)) else .ok i.toNat
    | _ => .error (.settings (v.mismatch .size))
  | _ => .error (.settings (v.mismatch .size))

/-- The directive that a JSON value is; null is none. -/
def readDirective (v : Json) : Except RuleError (Option String) :=
  if v.isNull then .ok none
  else
    match v.asText with
    | .ok s => .ok (some s)
    | .error fault => .error (.settings fault)

/-- The settings that are read so far. -/
structure Given where
  policy : Option ParenPolicy
  capacity : Option Nat
  directive : Option (Option String)

/-- The settings, with the usual ones for those not given. -/
def Given.complete (g : Given) : Settings :=
  ⟨g.policy.getD default.policy, g.capacity.getD default.cacheCapacity,
    g.directive.getD default.logDirective⟩

/-- Reads the fields of an object after those already read. -/
def readFields (g : Given) : List (Option String × Json) → Except RuleError Given
  | [] => .ok g
  | (none, _) :: _ => .error (.settings .notJson)
  | (some key, v) :: rest =>
    if key = "unbalanced_parentheses" then
      if g.policy.isSome then .error (.settings (.duplicateField key))
      else (readPolicy v).bind fun p => readFields { g with policy := some p } rest
    else if key = "cache_capacity" then
      if g.capacity.isSome then .error (.settings (.duplicateField key))
      else (readCapacity v).bind fun n => readFields { g with capacity := some n } rest
    else if key = "log_level" then
      if g.directive.isSome then .error (.settings (.duplicateField key))
      else (readDirective v).bind fun d => readFields { g with directive := some d } rest
    else readFields g rest

/-- The settings that the items of an array are. -/
def readItems : List Json → Except RuleError Given
  | [] => .ok ⟨none, none, none⟩
  | [p] => return ⟨some (← readPolicy p), none, none⟩
  | [p, n] => return ⟨some (← readPolicy p), some (← readCapacity n), none⟩
  | p :: n :: d :: rest => do
    let g : Given := ⟨some (← readPolicy p), some (← readCapacity n), some (← readDirective d)⟩
    if rest.isEmpty then return g else .error (.settings .tooManyItems)

/-- The settings that a JSON value is. -/
def ofJson (v : Json) : Except RuleError Settings :=
  match v with
  | .object fields => (readFields ⟨none, none, none⟩ fields).map Given.complete
  | .array items => (readItems items).map Given.complete
  | .atom a => .error (.settings ((Json.atom a).mismatch .settings))

/-- Reads the text of settings. -/
def fromJson (text : String) : Except RuleError Settings :=
  match Json.parse? text with
  | none => .error (.settings .notJson)
  | some v =>
    (ofJson v).mapError fun e => if Json.isExactText text then e else .settings .notJson

end Settings

end Rulebook
