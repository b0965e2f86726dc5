import Rulebook.Session
import Rulebook.Store

/-!
# Stores of a session

Stores as a host program handles them. A store takes its policy once, when it is opened: from a
dict, or from the settings in force if no dict is given.
-/

namespace Rulebook

/-- The dict of a stored rule. -/
def StoredRule.toHost (r : StoredRule) : HostValue :=
  .ofFields [("id", .text r.id), ("ruleString", .text r.source), ("ast", r.tree.toHost),
    ("createdAt", .text r.createdAt)]

namespace Session

/-- Opens a store. -/
def openStore (s : Session) (config : Option HostValue) : Except CallError Store :=
  match config with
  | none | some .absent => .ok (.empty s.settings.policy)
  | some v => (Settings.ofHost v).map fun settings => .empty settings.policy

end Session

namespace Store

/-- Compiles a rule, keeps it, and gives its dict. -/
def createRule (s : Store) (id createdAt : String) (rule : HostValue) :
    Outcome CallError HostValue × Store :=
  match rule.asText with
  | .error e => (⟨[], .error e⟩, s)
  | .ok rule =>
    let (o, s) := s.create id createdAt rule
    (⟨o.events, (o.result.mapError .refused).map StoredRule.toHost⟩, s)

/-- The dict of the rule with an identifier. -/
def getRule (s : Store) (id : HostValue) : Except CallError HostValue :=
  id.asText.bind fun id => ((s.get id).mapError .refused).map StoredRule.toHost

/-- The dicts of all rules, in the order of their creation. -/
def listRules (s : Store) : List HostValue := s.rules.map StoredRule.toHost

/-- Joins rules by their identifiers and gives the dict of the outcome; the absent value if there
are no identifiers. -/
def combineRules (s : Store) (ids : HostValue) (operator : Option HostValue) :
    Outcome CallError HostValue := do
  let ids ← .ofExcept ids.asTexts
  let word ← .ofExcept (HostValue.operatorWord operator)
  let c ← .ofExcept ((Connective.parse word).mapError .refused)
  let joined ← (s.combine ids c).mapError .refused
  return (joined.map Tree.toHost).getD .absent

/-- The truth value of the rule with an identifier on the record of a dict. -/
def evaluateRule (s : Store) (id data : HostValue) (k : Cache) : Outcome CallError Bool × Cache :=
  match id.asText with
  | .error e => (⟨[], .error e⟩, k)
  | .ok id =>
    match Record.ofHost data with
    | .error e => (⟨[], .error (.refused e)⟩, k)
    | .ok record =>
      let (o, k) := s.evaluate id record k
      (o.mapError .refused, k)

end Store

end Rulebook
