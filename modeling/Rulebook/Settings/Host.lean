import Rulebook.Host.Call
import Rulebook.Settings

/-!
# Settings as a dict

A setting that is missing or absent has its usual value; entries that are no settings are passed
over.
-/

namespace Rulebook

namespace Settings

/-- Reads a setting, if it is given. -/
def readEntry {α : Type} (name : String) (entries : List (HostValue × HostValue)) (usual : α)
    (read : HostValue → Except CallError α) : Except CallError α :=
  match HostValue.lookupPresent name entries with
  | some v => read v
  | none => .ok usual

/-- The settings that a host value gives. -/
def ofHost (v : HostValue) : Except CallError Settings :=
  match v with
  | .dict entries => do
    let policy ← readEntry "unbalanced_parentheses" entries default.policy fun v =>
      v.asText.bind fun s => (ParenPolicy.parse s).mapError .refused
    let capacity ← readEntry "cache_capacity" entries default.cacheCapacity
      (HostValue.asNatural capacityBound)
    let directive ← readEntry "log_level" entries default.logDirective fun v => v.asText.map some
    return ⟨policy, capacity, directive⟩
  | _ => .error .wrongType

end Settings

end Rulebook
