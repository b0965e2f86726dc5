import Rulebook.Cache
import Rulebook.ParenPolicy

/-!
# Settings

The settings of the engine: what to do about a stray `)`, the capacity of the cache, and a log
directive, which is left out when nothing is to be logged. Settings are read from named variables
here. Putting settings in force sets the capacity of the cache, and only then looks at the
directive.

The language of log directives is not the engine's own. What a log filter takes is a parameter here,
a `LogCheck`, and nothing is supposed of it.
-/

namespace Rulebook

/-- What a log filter has against a log directive, in its own words. It takes a directive against
which it has nothing. -/
abbrev LogCheck := String → Option String

/-- The settings of the engine. -/
structure Settings where
  policy : ParenPolicy
  cacheCapacity : Nat
  logDirective : Option String
deriving DecidableEq, Repr

namespace Settings

/-- The settings unless others are given. -/
def default : Settings := ⟨.reject, Cache.defaultCapacity, none⟩

/-- The variable that holds the policy. -/
def policyVariable : String := "RULE_ENGINE_UNBALANCED_PARENS"

/-- The variable that holds the capacity of the cache. -/
def capacityVariable : String := "RULE_ENGINE_CACHE_CAPACITY"

/-- The variable that holds the log directive. -/
def logVariable : String := "RULE_ENGINE_LOG"

/-- One more than the largest capacity. -/
def capacityBound : Nat := Nat.pow 2 64

/-- The capacity that a text spells, white space around it left out. -/
def parseCapacity (raw : String) : Except RuleError Nat :=
  match readNatural? (trimBlank raw.toList) with
  | some n => if n < capacityBound then .ok n else .error (.badCapacity raw)
  | none => .error (.badCapacity raw)

/-- Reads the settings from named variables. A blank directive counts as none. -/
def fromVars (lookup : String → Option String) : Except RuleError Settings := do
  let policy ← match lookup policyVariable with
    | some s => ParenPolicy.parse s
    | none => .ok default.policy
  let capacity ← match lookup capacityVariable with
    | some s => parseCapacity s
    | none => .ok default.cacheCapacity
  let directive := (lookup logVariable).filter fun s => !s.toList.all isBlank
  return ⟨policy, capacity, directive⟩

/-- The error of a log directive that the log filter does not take. -/
def checkDirective (check : LogCheck) (directive : String) : Except RuleError Unit :=
  match check directive with
  | none => .ok ()
  | some reason => .error (.badDirective directive reason)

/-- Puts settings in force on a cache. -/
def apply (check : LogCheck) (s : Settings) (k : Cache) : Except RuleError Unit × Cache :=
  (match s.logDirective with
    | some directive => checkDirective check directive
    | none => .ok (), k.setCapacity s.cacheCapacity)

end Settings

end Rulebook
