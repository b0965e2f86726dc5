import Rulebook.Proofs.StoreHistory
import Rulebook.Session.Job
import Rulebook.Session.Store

/-! # Runs of an engine

An engine is driven by the calls of a host program (`Engine.Call`): settings are changed, rules are
compiled, joined and evaluated, at once or as jobs that are carried out later, and stores are opened
and used.  Calls on the cache alone are among them, as other parts of a program may use it too.
Each call answers, and leaves an engine (`Engine.call`).  The check of log directives is the same in
all calls, and all that is proved here holds for any.

Three facts say all that a call does to what later calls can see.  It works on the cache as calls on
the cache do (`Engine.cache_call`).  It puts settings in force exactly if it is a change of settings
that is accepted, which its arguments alone decide (`Engine.settings_call`, `Call.accepted?`).  And
every open store keeps its number and its policy (`Engine.policyOf?_call`).  So after any run the
cache is one that calls can reach (`Engine.reachable_run`), the settings are those of the last
change that was accepted (`Engine.settings_run`), and a store has the policy it was opened with
(`Engine.policyOf?_run`).
-/
namespace Rulebook

variable (check : LogCheck)

/-! ## A change of settings -/

/-- There is nothing against the log directive of the settings, if they have one. -/
def Settings.Takes (s : Settings) : Prop := ∀ d ∈ s.logDirective, check d = none

instance (s : Settings) : Decidable (s.Takes check) :=
  inferInstanceAs (Decidable (∀ d ∈ s.logDirective, check d = none))

/-- **Putting settings in force sets the capacity of the cache**, whatever becomes of the log
directive, which is the only thing that can be refused. -/
theorem Settings.apply_cases (s : Settings) (k : Cache) :
    (s.Takes check ∧ s.apply check k = (.ok (), k.setCapacity s.cacheCapacity)) ∨
    ∃ d reason, s.logDirective = some d ∧ check d = some reason ∧
      s.apply check k = (.error (.badDirective d reason), k.setCapacity s.cacheCapacity) := by
  unfold apply checkDirective Takes
  cases s.logDirective with
  | none => exact .inl ⟨fun d hd => absurd hd (Option.not_mem_none d), rfl⟩
  | some d =>
    cases h : check d with
    | none =>
      refine .inl ⟨fun d' hd => ?_, by simp only [h]⟩
      rwa [← Option.some.inj hd]
    | some reason => exact .inr ⟨d, reason, rfl, h, by simp only [h]⟩

/-- The three ways that a change of settings can go. -/
theorem Session.configure_cases (s : Session) (config : Option HostValue)
    (vars : String → Option String) :
    (∃ e, settingsOf config vars = .error e ∧ s.configure check config vars = (.error e, s)) ∨
    (∃ settings, settingsOf config vars = .ok settings ∧ settings.Takes check ∧
      s.configure check config vars =
        (.ok (), ⟨settings, s.cache.setCapacity settings.cacheCapacity⟩)) ∨
    ∃ settings d reason, settingsOf config vars = .ok settings ∧
      settings.logDirective = some d ∧ check d = some reason ∧
      s.configure check config vars = (.error (.refused (.badDirective d reason)),
        { s with cache := s.cache.setCapacity settings.cacheCapacity }) := by
  unfold configure
  cases h : settingsOf config vars with
  | error e => exact .inl ⟨e, rfl, rfl⟩
  | ok settings =>
    rcases settings.apply_cases check s.cache with ⟨htakes, happly⟩ | ⟨d, reason, hd, hnot, happly⟩
    · exact .inr (.inl ⟨settings, rfl, htakes, by simp only [happly]⟩)
    · exact .inr (.inr ⟨settings, d, reason, rfl, hd, hnot, by simp only [happly]⟩)

/-! ## Calls -/

/-- An engine together with the stores that a host program has opened, in the order of their
opening. -/
structure Engine where
  session : Session
  stores : List Store

namespace Engine

/-- The engine at the beginning. -/
def initial : Engine := ⟨.initial, []⟩

/-- A call on an open store. -/
inductive StoreCall
  /-- a rule is created, under an identifier and at a time that are handed in -/
  | create (id createdAt : String) (rule : HostValue)
  | get (id : HostValue)
  | list
  | combine (ids : HostValue) (operator : Option HostValue)
  | evaluate (id data : HostValue)

/-- A call of a host program. -/
inductive Call
  | configure (config : Option HostValue) (vars : String → Option String)
  | createRule (rule : HostValue)
  | combineRules (asts : HostValue) (operator : Option HostValue)
  | evaluateRule (ast data : HostValue)
  /-- an evaluation is asked for -/
  | startEvaluation (ast data : HostValue)
  /-- an evaluation that was asked for is carried out -/
  | finishEvaluation (job : Job)
  | openStore (config : Option HostValue)
  /-- the store with a number is called -/
  | onStore (n : Nat) (c : StoreCall)
  /-- the cache is called past the host program -/
  | onCache (c : Cache.Call)

/-- What a call answers. -/
inductive Answer
  | value (o : Outcome CallError HostValue)
  /-- an evaluation that is still to be carried out -/
  | pending (job : Job)
  /-- the number of a store -/
  | handle (n : Nat)

/-- The answer that a call fails. -/
def Answer.failed (e : CallError) : Answer := .value ⟨[], .error e⟩

/-- The answer of a call that finds out a truth value. -/
def Answer.verdict (r : Except CallError Bool) : Answer := .value (.ofExcept (r.map .bool))

/-- Carries a call on a store out. -/
def StoreCall.runOn (s : Store) (k : Cache) :
    StoreCall → Outcome CallError HostValue × Store × Cache
  | .create id createdAt rule =>
    let (o, s) := s.createRule id createdAt rule
    (o, s, k)
  | .get id => (.ofExcept (s.getRule id), s, k)
  | .list => (pure (.list s.listRules), s, k)
  | .combine ids operator => (s.combineRules ids operator, s, k)
  | .evaluate id data =>
    let (o, k) := s.evaluateRule id data k
    (HostValue.bool <$> o, s, k)

/-- Carries a call out.  A host program has the numbers of open stores only; any other number is out
of range. -/
def call (w : Engine) : Call → Answer × Engine
  | .configure config vars =>
    let (r, session) := w.session.configure check config vars
    (.value (.ofExcept (r.map fun _ => .absent)), { w with session := session })
  | .createRule rule => (.value (w.session.createRule rule), w)
  | .combineRules asts operator => (.value (Session.combineRules asts operator), w)
  | .evaluateRule ast data =>
    let (r, session) := w.session.evaluateRule ast data
    (.verdict r, { w with session := session })
  | .startEvaluation ast data =>
    match Job.ofHost ast data with
    | .ok job => (.pending job, w)
    | .error e => (.failed e, w)
  | .finishEvaluation job =>
    let (r, session) := job.carryOut w.session
    (.verdict r, { w with session := session })
  | .openStore config =>
    match w.session.openStore config with
    | .ok store => (.handle w.stores.length, { w with stores := w.stores ++ [store] })
    | .error e => (.failed e, w)
  | .onStore n c =>
    match w.stores[n]? with
    | none => (.failed .outOfRange, w)
    | some store =>
      let (o, store, cache) := c.runOn store w.session.cache
      (.value o, ⟨{ w.session with cache := cache }, w.stores.set n store⟩)
  | .onCache c =>
    (.value (pure .absent), { w with session.cache := w.session.cache.after c })

/-- The engine that calls leave, one after the other. -/
def run (w : Engine) (calls : List Call) : Engine :=
  calls.foldl (fun w c => (w.call check c).2) w

/-- The answer to a call that is made after some others. -/
def answer (before : List Call) (c : Call) : Answer :=
  ((initial.run check before).call check c).1

/-- The settings that a call puts in force, if it is a change of settings that is accepted. -/
def Call.accepted? : Call → Option Settings
  | .configure config vars =>
    (Session.settingsOf config vars).toOption.filter fun settings => settings.Takes check
  | _ => none

/-- The settings of the last change that is accepted, and the usual ones if there is none. -/
def settingsAfter (calls : List Call) : Settings :=
  ((calls.filterMap (Call.accepted? check)).getLast?).getD .default

/-! ## Calls that can end in two ways -/

section Branches

variable {check} {w : Engine}

theorem call_startEvaluation_ok {ast data : HostValue} {job : Job}
    (h : Job.ofHost ast data = .ok job) :
    w.call check (.startEvaluation ast data) = (.pending job, w) := by
  simp only [call, h]

theorem call_startEvaluation_error {ast data : HostValue} {e : CallError}
    (h : Job.ofHost ast data = .error e) :
    w.call check (.startEvaluation ast data) = (.failed e, w) := by
  simp only [call, h]

theorem call_openStore_ok {config : Option HostValue} {store : Store}
    (h : w.session.openStore config = .ok store) :
    w.call check (.openStore config) =
      (.handle w.stores.length, { w with stores := w.stores ++ [store] }) := by
  simp only [call, h]

theorem call_openStore_error {config : Option HostValue} {e : CallError}
    (h : w.session.openStore config = .error e) :
    w.call check (.openStore config) = (.failed e, w) := by
  simp only [call, h]

theorem call_onStore_some {n : Nat} {store : Store} (h : w.stores[n]? = some store)
    (c : StoreCall) :
    w.call check (.onStore n c) = (.value (c.runOn store w.session.cache).1,
      ⟨{ w.session with cache := (c.runOn store w.session.cache).2.2 },
        w.stores.set n (c.runOn store w.session.cache).2.1⟩) := by
  simp only [call, h]

theorem call_onStore_none {n : Nat} (h : w.stores[n]? = none) (c : StoreCall) :
    w.call check (.onStore n c) = (.failed .outOfRange, w) := by
  simp only [call, h]

end Branches

/-! ## What a call does to the cache -/

/-- A store works on the cache by evaluating. -/
theorem cache_storeEvaluate (s : Store) (id : String) (r : Record) (k : Cache) :
    ∃ cs : List Cache.Call, (s.evaluate id r k).2 = cs.foldl Cache.after k := by
  cases h : s.get id with
  | error e => exact ⟨[], by simp only [Store.evaluate, h, List.foldl_nil]⟩
  | ok rule => exact ⟨[.evaluate rule.tree r], Store.cache_evaluate h r k⟩

theorem cache_storeEvaluateRule (s : Store) (id data : HostValue) (k : Cache) :
    ∃ cs : List Cache.Call, (s.evaluateRule id data k).2 = cs.foldl Cache.after k := by
  unfold Store.evaluateRule
  cases id.asText with
  | error e => exact ⟨[], rfl⟩
  | ok id =>
    cases Record.ofHost data with
    | error e => exact ⟨[], rfl⟩
    | ok r => exact cache_storeEvaluate s id r k

theorem StoreCall.cache_runOn (s : Store) (k : Cache) (c : StoreCall) :
    ∃ cs : List Cache.Call, (c.runOn s k).2.2 = cs.foldl Cache.after k := by
  cases c with
  | create id createdAt rule => exact ⟨[], rfl⟩
  | get id => exact ⟨[], rfl⟩
  | list => exact ⟨[], rfl⟩
  | combine ids operator => exact ⟨[], rfl⟩
  | evaluate id data => exact cache_storeEvaluateRule s id data k

theorem cache_configure (s : Session) (config : Option HostValue)
    (vars : String → Option String) :
    ∃ cs : List Cache.Call,
      (s.configure check config vars).2.cache = cs.foldl Cache.after s.cache := by
  rcases s.configure_cases check config vars with
    ⟨e, -, h⟩ | ⟨settings, -, -, h⟩ | ⟨settings, d, reason, -, -, -, h⟩ <;> rw [h]
  · exact ⟨[], rfl⟩
  · exact ⟨[.setCapacity settings.cacheCapacity], rfl⟩
  · exact ⟨[.setCapacity settings.cacheCapacity], rfl⟩

theorem cache_evaluateRule (s : Session) (ast data : HostValue) :
    ∃ cs : List Cache.Call,
      (s.evaluateRule ast data).2.cache = cs.foldl Cache.after s.cache := by
  rw [Session.evaluateRule_eq]
  cases Job.ofHost ast data with
  | error e => exact ⟨[], rfl⟩
  | ok job => exact ⟨[.evaluate job.tree job.record], rfl⟩

variable (w : Engine)

/-- **A call works on the cache as calls on the cache do.** -/
theorem cache_call (c : Call) :
    ∃ cs : List Cache.Call,
      (w.call check c).2.session.cache = cs.foldl Cache.after w.session.cache := by
  cases c with
  | configure config vars => exact cache_configure check w.session config vars
  | createRule rule => exact ⟨[], rfl⟩
  | combineRules asts operator => exact ⟨[], rfl⟩
  | evaluateRule ast data => exact cache_evaluateRule w.session ast data
  | startEvaluation ast data =>
    cases h : Job.ofHost ast data with
    | ok job => exact ⟨[], by rw [call_startEvaluation_ok h]; rfl⟩
    | error e => exact ⟨[], by rw [call_startEvaluation_error h]; rfl⟩
  | finishEvaluation job => exact ⟨[.evaluate job.tree job.record], rfl⟩
  | openStore config =>
    cases h : w.session.openStore config with
    | ok store => exact ⟨[], by rw [call_openStore_ok h]; rfl⟩
    | error e => exact ⟨[], by rw [call_openStore_error h]; rfl⟩
  | onStore n c =>
    cases h : w.stores[n]? with
    | some store =>
      rw [call_onStore_some h]
      exact c.cache_runOn store w.session.cache
    | none => exact ⟨[], by rw [call_onStore_none h]; rfl⟩
  | onCache c => exact ⟨[c], rfl⟩

/-! ## What a call does to the settings -/

/-- A change of settings is accepted or fails, and only an accepted one puts its settings in
force. -/
theorem configure_accepted (s : Session) (config : Option HostValue)
    (vars : String → Option String) :
    (∃ settings, (Call.configure config vars).accepted? check = some settings ∧
      (s.configure check config vars).1 = .ok () ∧
      (s.configure check config vars).2.settings = settings) ∨
    ∃ e, (Call.configure config vars).accepted? check = none ∧
      (s.configure check config vars).1 = .error e ∧
      (s.configure check config vars).2.settings = s.settings := by
  rcases s.configure_cases check config vars with
    ⟨e, hof, h⟩ | ⟨settings, hof, htakes, h⟩ | ⟨settings, d, reason, hof, hd, hnot, h⟩ <;>
    rw [h, Call.accepted?, hof]
  · exact .inr ⟨e, rfl, rfl, rfl⟩
  · exact .inl ⟨settings, Option.filter_eq_some_iff.mpr ⟨rfl, decide_eq_true htakes⟩, rfl, rfl⟩
  · refine .inr ⟨_, Option.filter_eq_none_iff.mpr ?_, rfl, rfl⟩
    intro settings' hsettings
    obtain rfl := Option.some.inj hsettings
    rw [decide_eq_true_iff]
    intro htakes
    rw [htakes d hd] at hnot
    cases hnot

/-- **Settings are put in force by a change of settings that is accepted**, and by nothing else. -/
theorem settings_call (c : Call) :
    (w.call check c).2.session.settings = (c.accepted? check).getD w.session.settings := by
  cases c with
  | configure config vars =>
    show (w.session.configure check config vars).2.settings = _
    rcases configure_accepted check w.session config vars with
      ⟨settings, haccepted, -, h⟩ | ⟨e, haccepted, -, h⟩
    · rw [haccepted, h, Option.getD_some]
    · rw [haccepted, h, Option.getD_none]
  | createRule rule => rfl
  | combineRules asts operator => rfl
  | evaluateRule ast data =>
    show (w.session.evaluateRule ast data).2.settings = w.session.settings
    rw [Session.evaluateRule_eq]
    cases Job.ofHost ast data <;> rfl
  | startEvaluation ast data =>
    cases h : Job.ofHost ast data with
    | ok job => rw [call_startEvaluation_ok h]; rfl
    | error e => rw [call_startEvaluation_error h]; rfl
  | finishEvaluation job => rfl
  | openStore config =>
    cases h : w.session.openStore config with
    | ok store => rw [call_openStore_ok h]; rfl
    | error e => rw [call_openStore_error h]; rfl
  | onStore n c =>
    cases h : w.stores[n]? with
    | some store => rw [call_onStore_some h]; rfl
    | none => rw [call_onStore_none h]; rfl
  | onCache c => rfl

/-! ## What a call does to the stores -/

theorem StoreCall.policy_runOn (s : Store) (k : Cache) (c : StoreCall) :
    (c.runOn s k).2.1.policy = s.policy := by
  cases c with
  | create id createdAt rule =>
    show (s.createRule id createdAt rule).2.policy = s.policy
    unfold Store.createRule
    cases rule.asText with
    | error e => rfl
    | ok rule =>
      show (s.create id createdAt rule).2.policy = s.policy
      rcases s.create_cases id createdAt rule with ⟨tree, -, h⟩ | ⟨e, -, h⟩
      · rw [h]
        rfl
      · rw [h]
  | get id => rfl
  | list => rfl
  | combine ids operator => rfl
  | evaluate id data => rfl

/-- The policy of the store with a number. -/
def policyOf? (n : Nat) : Option ParenPolicy := w.stores[n]?.map Store.policy

/-- **A store keeps its number and its policy.** -/
theorem policyOf?_call {w : Engine} {n : Nat} {policy : ParenPolicy}
    (h : w.policyOf? n = some policy) (c : Call) :
    (w.call check c).2.policyOf? n = some policy := by
  obtain ⟨store, hstore, hpolicy⟩ := Option.map_eq_some_iff.mp h
  cases c with
  | configure config vars => exact h
  | createRule rule => exact h
  | combineRules asts operator => exact h
  | evaluateRule ast data => exact h
  | startEvaluation ast data =>
    cases hj : Job.ofHost ast data with
    | ok job => rwa [call_startEvaluation_ok hj]
    | error e => rwa [call_startEvaluation_error hj]
  | finishEvaluation job => exact h
  | openStore config =>
    cases ho : w.session.openStore config with
    | ok opened =>
      have hlt : n < w.stores.length := (List.getElem?_eq_some_iff.mp hstore).1
      rw [call_openStore_ok ho, policyOf?, List.getElem?_append_left hlt]
      exact h
    | error e => rwa [call_openStore_error ho]
  | onStore m c =>
    cases hm : w.stores[m]? with
    | none => rwa [call_onStore_none hm]
    | some store' =>
      rw [call_onStore_some hm, policyOf?]
      by_cases hmn : m = n
      · subst hmn
        obtain rfl : store = store' := Option.some.inj (hstore.symm.trans hm)
        rw [List.getElem?_set_self (List.getElem?_eq_some_iff.mp hm).1, Option.map_some,
          c.policy_runOn, hpolicy]
      · rw [List.getElem?_set_ne hmn]
        exact h
  | onCache c => exact h

/-! ## What a run does -/

theorem run_cons (c : Call) (calls : List Call) :
    w.run check (c :: calls) = (w.call check c).2.run check calls := rfl

theorem run_append (calls later : List Call) :
    w.run check (calls ++ later) = (w.run check calls).run check later :=
  List.foldl_append

/-- **The cache of an engine is one that calls can reach.** -/
theorem reachable_run (calls : List Call) :
    (initial.run check calls).session.cache.Reachable := by
  refine List.foldlRecOn calls _ (motive := fun w : Engine => w.session.cache.Reachable)
    Cache.reachable_initial ?_
  intro w h c _
  obtain ⟨before, hbefore⟩ := h
  obtain ⟨cs, hcs⟩ := w.cache_call check c
  exact ⟨before ++ cs, by rw [List.foldl_append, hbefore, hcs]⟩

theorem settings_run_from (calls : List Call) :
    (w.run check calls).session.settings =
      ((calls.filterMap (Call.accepted? check)).getLast?).getD w.session.settings := by
  induction calls generalizing w with
  | nil => rfl
  | cons c calls ih =>
    rw [run_cons, ih, settings_call]
    cases h : c.accepted? check with
    | none => rw [List.filterMap_cons_none h, Option.getD_none]
    | some settings =>
      rw [List.filterMap_cons_some h, List.getLast?_cons, Option.getD_some, Option.getD_some]

/-- **The settings are those of the last change that was accepted.** -/
theorem settings_run (calls : List Call) :
    (initial.run check calls).session.settings = settingsAfter check calls :=
  initial.settings_run_from check calls

/-- A refused change does not count. -/
example : settingsAfter (fun d => if d = "x=loud" then some "no such level" else none)
    [.configure (some (.ofFields [("unbalanced_parentheses", .text "drain")])) fun _ => none,
      .configure (some (.ofFields [("log_level", .text "x=loud")])) fun _ => none] =
    ⟨.drain, 2048, none⟩ := by
  decide +kernel

/-- **A store keeps its policy**, whatever is called. -/
theorem policyOf?_run {w : Engine} {n : Nat} {policy : ParenPolicy}
    (h : w.policyOf? n = some policy) (calls : List Call) :
    (w.run check calls).policyOf? n = some policy :=
  List.foldlRecOn calls _ (motive := fun w : Engine => w.policyOf? n = some policy) h
    fun _ h c _ => policyOf?_call check h c

end Engine

end Rulebook
