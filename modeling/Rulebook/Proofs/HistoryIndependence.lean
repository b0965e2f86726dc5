import Rulebook.Proofs.EngineRuns

/-! # Answers do not depend on the history

The settings in force and the cache outlive a call, and calls that fail can change them too.  Still
a call is answered from its own arguments and, where a rule is compiled, from one policy.  Compiling
a rule goes by the policy of the last change of settings that was accepted; a store goes by the
policy that it was opened with, whatever is changed later.  Joining trees and evaluating them go by
their arguments alone.  An evaluation that is carried out later gives what it would have given at
once.

`Engine.Unaffected` says this of the calls that come after some others, and `Engine.unaffected` that
it holds whatever came before.  It rests on what a run leaves alone: the settings are those that
were accepted last (`Engine.settings_run`), a store keeps its policy (`Engine.policyOf?_run`), and
the cache is one that calls can reach (`Engine.reachable_run`), so it does not show
(`Job.result_carryOut`).
-/
namespace Rulebook

/-! ## Answers from the arguments -/

/-- The truth value of a job, found without a cache. -/
def Job.verdict (job : Job) : Except CallError Bool :=
  (job.tree.verdict job.record).mapError .refused

/-- The truth value of the tree of a dict on the record of another, found without a cache. -/
def verdictOf (ast data : HostValue) : Except CallError Bool := do
  let job ← Job.ofHost ast data
  job.verdict

/-- The dict of the tree that a rule compiles to under a policy. -/
def compileUnder (policy : ParenPolicy) (rule : HostValue) : Outcome CallError HostValue := do
  let rule ← .ofExcept rule.asText
  let tree ← (Tree.compile policy rule).mapError .refused
  return tree.toHost

/-- The dict of the stored rule that a rule becomes under a policy. -/
def storeUnder (policy : ParenPolicy) (id createdAt : String) (rule : HostValue) :
    Outcome CallError HostValue := do
  let rule ← .ofExcept rule.asText
  let tree ← (Tree.compile policy rule).mapError .refused
  Outcome.emit (.stored id tree.leafCount)
  return StoredRule.toHost ⟨id, rule, tree, createdAt⟩

/-- The policy that a store is opened with: that of a dict, or `current` if none is given. -/
def openingPolicy (current : ParenPolicy) (config : Option HostValue) :
    Except CallError ParenPolicy :=
  match config with
  | none | some .absent => .ok current
  | some v => (Settings.ofHost v).map Settings.policy

/-- A job gives its truth value on every session that calls can reach. -/
theorem Job.result_carryOut (job : Job) {s : Session} (hs : s.cache.Reachable) :
    (job.carryOut s).1 = job.verdict :=
  congrArg (Except.mapError CallError.refused)
    (Cached.faithful_evaluate job.tree job.record s.cache hs.sound).1

theorem Session.result_evaluateRule {s : Session} (hs : s.cache.Reachable)
    (ast data : HostValue) : (s.evaluateRule ast data).1 = verdictOf ast data := by
  rw [evaluateRule_eq, verdictOf]
  cases Job.ofHost ast data with
  | error e => rfl
  | ok job => exact job.result_carryOut hs

theorem Store.outcome_createRule (s : Store) (id createdAt : String) (rule : HostValue) :
    (s.createRule id createdAt rule).1 = storeUnder s.policy id createdAt rule := by
  unfold createRule storeUnder
  cases rule.asText with
  | error e => rfl
  | ok rule =>
    rcases h : Tree.compile s.policy rule with ⟨events, e | tree⟩
    · simp only [create, h, Outcome.ofExcept_ok_bind]
      rfl
    · simp only [create, h, Outcome.ofExcept_ok_bind]
      rfl

theorem Session.openStore_eq (s : Session) (config : Option HostValue) :
    s.openStore config = (openingPolicy s.settings.policy config).map Store.empty := by
  have hmap : ∀ x : Except CallError Settings,
      x.map (fun settings => Store.empty settings.policy) =
        (x.map Settings.policy).map Store.empty := by
    intro x
    cases x <;> rfl
  cases config with
  | none => rfl
  | some v =>
    cases v with
    | absent => rfl
    | bool _ | int _ | float _ | text _ | brokenText _ | list _ | dict _ =>
      simp only [openStore, openingPolicy, hmap]

/-! ## The calls after some others -/

namespace Engine

/-- Whether a call did not fail. -/
def Answer.isOk : Answer → Bool
  | .value o => o.result.isOk
  | .pending _ | .handle _ => true

/-- The calls after the calls `before` are answered from their arguments and one policy. -/
structure Unaffected (check : LogCheck) (before : List Call) : Prop where
  configure (config : Option HostValue) (vars : String → Option String) :
    (answer check before (.configure config vars)).isOk =
      ((Call.configure config vars).accepted? check).isSome
  createRule (rule : HostValue) :
    answer check before (.createRule rule) =
      .value (compileUnder (settingsAfter check before).policy rule)
  combineRules (asts : HostValue) (operator : Option HostValue) :
    answer check before (.combineRules asts operator) = .value (Session.combineRules asts operator)
  evaluateRule (ast data : HostValue) :
    answer check before (.evaluateRule ast data) = .verdict (verdictOf ast data)
  /-- An evaluation that is asked for fails at once as it would have failed when carried out, or it
  gives its truth value after any further calls. -/
  laterEvaluation (ast data : HostValue) :
    (∃ e, verdictOf ast data = .error e ∧
      answer check before (.startEvaluation ast data) = .failed e) ∨
    ∃ job, answer check before (.startEvaluation ast data) = .pending job ∧
      ∀ later, answer check (before ++ .startEvaluation ast data :: later) (.finishEvaluation job) =
        .verdict (verdictOf ast data)
  /-- A store is opened with a policy, and compiles under it after any further calls. -/
  openStore (config : Option HostValue) :
    (∃ e, openingPolicy (settingsAfter check before).policy config = .error e ∧
      answer check before (.openStore config) = .failed e) ∨
    ∃ policy n, openingPolicy (settingsAfter check before).policy config = .ok policy ∧
      answer check before (.openStore config) = .handle n ∧
      ∀ later id createdAt rule,
        answer check (before ++ .openStore config :: later)
            (.onStore n (.create id createdAt rule)) =
          .value (storeUnder policy id createdAt rule)

variable (check : LogCheck) (before : List Call)

theorem isOk_configure (config : Option HostValue) (vars : String → Option String) :
    (answer check before (.configure config vars)).isOk =
      ((Call.configure config vars).accepted? check).isSome := by
  show ((((initial.run check before).session.configure check config vars).1.map fun _ =>
    HostValue.absent).isOk) = _
  rcases configure_accepted check (initial.run check before).session config vars with
    ⟨settings, haccepted, h, -⟩ | ⟨e, haccepted, h, -⟩
  · rw [haccepted, h]
    rfl
  · rw [haccepted, h]
    rfl

theorem answer_createRule (rule : HostValue) :
    answer check before (.createRule rule) =
      .value (compileUnder (settingsAfter check before).policy rule) := by
  rw [← settings_run]
  rfl

theorem answer_evaluateRule (ast data : HostValue) :
    answer check before (.evaluateRule ast data) = .verdict (verdictOf ast data) :=
  congrArg Answer.verdict (Session.result_evaluateRule (reachable_run check before) ast data)

/-- A job gives its truth value after any calls. -/
theorem answer_finishEvaluation (job : Job) :
    answer check before (.finishEvaluation job) = .verdict job.verdict :=
  congrArg Answer.verdict (job.result_carryOut (reachable_run check before))

theorem answer_startEvaluation (ast data : HostValue) :
    (∃ e, verdictOf ast data = .error e ∧
      answer check before (.startEvaluation ast data) = .failed e) ∨
    ∃ job, answer check before (.startEvaluation ast data) = .pending job ∧
      ∀ later, answer check (before ++ .startEvaluation ast data :: later) (.finishEvaluation job) =
        .verdict (verdictOf ast data) := by
  cases h : Job.ofHost ast data with
  | error e =>
    refine .inl ⟨e, by rw [verdictOf, h]; rfl, ?_⟩
    rw [answer, call_startEvaluation_error h]
  | ok job =>
    refine .inr ⟨job, by rw [answer, call_startEvaluation_ok h], ?_⟩
    intro later
    rw [answer_finishEvaluation, verdictOf, h]
    rfl

/-- A store that has a number creates rules under its policy. -/
theorem answer_create {n : Nat} {policy : ParenPolicy}
    (h : (initial.run check before).policyOf? n = some policy) (id createdAt : String)
    (rule : HostValue) :
    answer check before (.onStore n (.create id createdAt rule)) =
      .value (storeUnder policy id createdAt rule) := by
  obtain ⟨store, hstore, rfl⟩ := Option.map_eq_some_iff.mp h
  rw [answer, call_onStore_some hstore]
  exact congrArg Answer.value (store.outcome_createRule id createdAt rule)

theorem answer_openStore (config : Option HostValue) :
    (∃ e, openingPolicy (settingsAfter check before).policy config = .error e ∧
      answer check before (.openStore config) = .failed e) ∨
    ∃ policy n, openingPolicy (settingsAfter check before).policy config = .ok policy ∧
      answer check before (.openStore config) = .handle n ∧
      ∀ later id createdAt rule,
        answer check (before ++ .openStore config :: later)
            (.onStore n (.create id createdAt rule)) =
          .value (storeUnder policy id createdAt rule) := by
  have hopen := (initial.run check before).session.openStore_eq config
  rw [settings_run] at hopen
  cases h : openingPolicy (settingsAfter check before).policy config with
  | error e =>
    rw [h] at hopen
    exact .inl ⟨e, rfl, by rw [answer, call_openStore_error hopen]⟩
  | ok policy =>
    rw [h] at hopen
    refine .inr ⟨policy, (initial.run check before).stores.length, rfl,
      by rw [answer, call_openStore_ok hopen], ?_⟩
    intro later id createdAt rule
    refine answer_create check _ ?_ id createdAt rule
    rw [run_append, run_cons]
    refine policyOf?_run check ?_ later
    rw [call_openStore_ok hopen, policyOf?, List.getElem?_concat_length]
    rfl

/-- **No answer depends on the history.**  Whatever calls went before, failing ones included, every
call that follows is answered from its own arguments, and where it compiles a rule, from the policy
of the last change of settings that was accepted, or from that of its store. -/
theorem unaffected : Unaffected check before where
  configure := isOk_configure check before
  createRule := answer_createRule check before
  combineRules _ _ := rfl
  evaluateRule := answer_evaluateRule check before
  laterEvaluation := answer_startEvaluation check before
  openStore := answer_openStore check before

end Engine

end Rulebook
