import Rulebook.Session

/-!
# Jobs

Evaluations can be carried out later. The dicts are read when the evaluation is asked for, and what
is wrong with them is answered at once. What was read is a job of its own: it can wait while other
calls go on, and uses the cache that it finds when it is carried out.
-/

namespace Rulebook

/-- An evaluation whose arguments are read. -/
structure Job where
  tree : Tree
  record : Record

namespace Job

/-- Reads the arguments of an evaluation, the tree first. -/
def ofHost (ast data : HostValue) : Except CallError Job := do
  let tree ← (Tree.ofHost ast).mapError .refused
  let record ← (Record.ofHost data).mapError .refused
  return ⟨tree, record⟩

/-- Carries an evaluation out. -/
def carryOut (job : Job) (s : Session) : Except CallError Bool × Session :=
  let (verdict, cache) := (job.tree.evaluate job.record).runOn s.cache
  (verdict.mapError .refused, { s with cache := cache })

end Job

/-- An evaluation is its job, carried out at once. -/
theorem Session.evaluateRule_eq (s : Session) (ast data : HostValue) :
    s.evaluateRule ast data =
      match Job.ofHost ast data with
      | .error e => (.error e, s)
      | .ok job => job.carryOut s := by
  unfold evaluateRule Job.ofHost
  cases Tree.ofHost ast with
  | error e => rfl
  | ok tree =>
    cases Record.ofHost data with
    | error e => rfl
    | ok record => rfl

end Rulebook
