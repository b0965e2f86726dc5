import Rulebook.Error
import Rulebook.Text.Blank

/-!
# Stray parentheses

What to do about a `)` that closes nothing: refuse the rule, or let it flush the connectives that
are still waiting and go on.
-/

namespace Rulebook

/-- How a `)` that closes nothing is taken. -/
inductive ParenPolicy
  /-- the rule is refused -/
  | reject
  /-- the waiting connectives are flushed -/
  | drain
deriving DecidableEq, Repr, Inhabited

namespace ParenPolicy

/-- The name of a policy. -/
def name : ParenPolicy → String
  | .reject => "reject"
  | .drain => "drain"

/-- A name as it is compared: without white space around it and with small ASCII letters. -/
def normalized (s : String) : String := String.ofList ((trimBlank s.toList).map Char.toLower)

/-- The policy of a name, or the error that there is none. -/
def parse (s : String) : Except RuleError ParenPolicy :=
  if normalized s = "reject" then .ok .reject
  else if normalized s = "drain" then .ok .drain
  else .error (.unknownPolicy (normalized s))

end ParenPolicy

end Rulebook
