import Rulebook.Assembly
import Rulebook.Host.Record
import Rulebook.Host.Tree
import Rulebook.Evaluate
import Rulebook.Settings.Host

/-!
# Sessions

A session is the engine as a host program embeds it, with host values for arguments and results. Its
state is the settings in force and the cache of conditions. Settings are taken from a dict, or from
variables if no dict is given; they come into force only if all of them are accepted, but the cache
has its new capacity by the time a log directive is refused.
-/

namespace Rulebook

/-- The state of an embedded engine. -/
structure Session where
  settings : Settings
  cache : Cache
deriving Repr

namespace Session

/-- The session at the beginning. -/
def initial : Session := ⟨.default, .initial⟩

/-- The settings that an argument gives; without a dict, those of the variables. -/
def settingsOf (config : Option HostValue) (vars : String → Option String) :
    Except CallError Settings :=
  match config with
  | none | some .absent => (Settings.fromVars vars).mapError .refused
  | some v => Settings.ofHost v

/-- Puts new settings in force. -/
def configure (check : LogCheck) (s : Session) (config : Option HostValue)
    (vars : String → Option String) : Except CallError Unit × Session :=
  match settingsOf config vars with
  | .error e => (.error e, s)
  | .ok settings =>
    match settings.apply check s.cache with
    | (.ok (), cache) => (.ok (), ⟨settings, cache⟩)
    | (.error e, cache) => (.error (.refused e), { s with cache := cache })

/-- Compiles a rule under the policy in force and gives the dict of its tree. -/
def createRule (s : Session) (rule : HostValue) : Outcome CallError HostValue := do
  let rule ← .ofExcept rule.asText
  let tree ← (Tree.compile s.settings.policy rule).mapError .refused
  return tree.toHost

/-- Joins the trees of some dicts from the left under one operator, and gives the dict of the
outcome; the absent value if there are no dicts. -/
def combineRules (asts : HostValue) (operator : Option HostValue) :
    Outcome CallError HostValue := do
  let items ← .ofExcept asts.asList
  let word ← .ofExcept (HostValue.operatorWord operator)
  let c ← .ofExcept ((Connective.parse word).mapError .refused)
  let trees ← .ofExcept ((items.mapM Tree.ofHost).mapError .refused)
  let joined ← (Tree.combine c trees).mapError .refused
  return (joined.map Tree.toHost).getD .absent

/-- The truth value of the tree of a dict on the record of another. -/
def evaluateRule (s : Session) (ast data : HostValue) : Except CallError Bool × Session :=
  match Tree.ofHost ast with
  | .error e => (.error (.refused e), s)
  | .ok tree =>
    match Record.ofHost data with
    | .error e => (.error (.refused e), s)
    | .ok record =>
      let (verdict, cache) := (tree.evaluate record).runOn s.cache
      (verdict.mapError .refused, { s with cache := cache })

end Session

end Rulebook
