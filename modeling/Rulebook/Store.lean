import Rulebook.Assembly
import Rulebook.Evaluate
import Rulebook.Tree.Document

/-!
# Stores

A store keeps compiled rules. Rules are only ever added, each under an identifier that its creator
hands in and that is taken to be new; the store keeps them in the order of their creation, with an
index from identifiers to places. All rules of a store are compiled under one policy.
-/

namespace Rulebook

/-- A rule that is kept in a store. -/
structure StoredRule where
  id : String
  /-- the text the rule was compiled from -/
  source : String
  tree : Tree
  /-- when the rule was created -/
  createdAt : String
deriving DecidableEq, Repr

/-- The document of a stored rule. -/
def StoredRule.document (r : StoredRule) : Json :=
  .ofFields [("id", .text r.id), ("ruleString", .text r.source), ("ast", r.tree.document),
    ("createdAt", .text r.createdAt)]

/-- A store of rules. -/
structure Store where
  policy : ParenPolicy
  /-- the rules, in the order of their creation -/
  rules : List StoredRule
  /-- the place of each identifier among the rules, the latest first -/
  index : List (String × Nat)
deriving Repr

namespace Store

/-- A store without rules. -/
def empty (policy : ParenPolicy) : Store := ⟨policy, [], []⟩

/-- How many rules are kept. -/
def size (s : Store) : Nat := s.rules.length

/-- Whether no rule is kept. -/
def isEmpty (s : Store) : Bool := s.rules.isEmpty

/-- Adds a rule at the end. -/
def add (s : Store) (r : StoredRule) : Store :=
  { s with rules := s.rules ++ [r], index := (r.id, s.size) :: s.index }

/-- Compiles a rule and keeps it under a new identifier. A rule that does not compile is not
kept. -/
def create (s : Store) (id createdAt rule : String) : Outcome RuleError StoredRule × Store :=
  let compiled := Tree.compile s.policy rule
  match compiled.result with
  | .error e => (⟨compiled.events, .error e⟩, s)
  | .ok tree =>
    let stored : StoredRule := ⟨id, rule, tree, createdAt⟩
    (⟨compiled.events ++ [.stored id tree.leafCount], .ok stored⟩, s.add stored)

/-- The rule with an identifier, if there is one. -/
def get? (s : Store) (id : String) : Option StoredRule :=
  (s.index.lookup id).bind (s.rules[·]?)

/-- The rule with an identifier, or the error that there is none. -/
def get (s : Store) (id : String) : Except RuleError StoredRule :=
  match s.get? id with
  | some r => .ok r
  | none => .error (.ruleNotFound id)

/-- The rules with the given identifiers, or the error of the first that has none. -/
def getAll (s : Store) : List String → Except RuleError (List StoredRule)
  | [] => .ok []
  | id :: ids => (s.get id).bind fun r => (s.getAll ids).map (r :: ·)

/-- Joins the rules with the given identifiers, in their order, under one connective. -/
def combine (s : Store) (ids : List String) (c : Connective) :
    Outcome RuleError (Option Tree) := do
  let rules ← .ofExcept (s.getAll ids)
  Tree.combine c (rules.map StoredRule.tree)

/-- The truth value of the rule with an identifier on a record. -/
def evaluate (s : Store) (id : String) (r : Record) (k : Cache) :
    Outcome RuleError Bool × Cache :=
  match s.get id with
  | .error e => (⟨[], .error e⟩, k)
  | .ok rule =>
    match (rule.tree.evaluate r).runOn k with
    | (.ok verdict, k) => (⟨[.evaluated id verdict], .ok verdict⟩, k)
    | (.error e, k) => (⟨[], .error e⟩, k)

end Store

end Rulebook
