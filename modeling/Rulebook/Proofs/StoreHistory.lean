import Rulebook.Proofs.EvaluationSafety

/-! # A store is the list of the rules created in it

A store is driven by calls (`Store.Call`), each of which answers and leaves a store and a cache
(`State.call`).  A call adds a rule exactly if it creates one whose text compiles (`Call.added`),
and it touches the store in no other case (`State.store_call`).  So after a run the rules of the
store are those that its calls added, in their order: its *history* (`State.rules_run`).

If no identifier is given to two rules of the history, the index is the inverse of the list: it maps
the identifier of each rule to its place and nothing else (`Valid.lookup_eq_some_iff`).  Then every
question to the store is answered from the history alone (`Refines`, `run_refines`).
-/
namespace Rulebook.Store

/-! ## Calls and runs -/

/-- A call on a store. -/
inductive Call
  /-- a rule is created, under an identifier and at a time that are handed in -/
  | create (id createdAt rule : String)
  | get (id : String)
  | list
  | combine (ids : List String) (c : Connective)
  | evaluate (id : String) (r : Record)

/-- What a call answers. -/
inductive Answer
  | created (o : Outcome RuleError StoredRule)
  | found (result : Except RuleError StoredRule)
  | listed (rules : List StoredRule)
  | combined (o : Outcome RuleError (Option Tree))
  | evaluated (o : Outcome RuleError Bool)

/-- A store together with the cache of conditions. -/
structure State where
  store : Store
  cache : Cache

/-- A new store under a policy, with any cache. -/
def State.opened (policy : ParenPolicy) (k : Cache) : State := ⟨empty policy, k⟩

/-- Carries a call out. -/
def State.call (w : State) : Call → Answer × State
  | .create id createdAt rule =>
    let (o, store) := w.store.create id createdAt rule
    (.created o, ⟨store, w.cache⟩)
  | .get id => (.found (w.store.get id), w)
  | .list => (.listed w.store.rules, w)
  | .combine ids c => (.combined (w.store.combine ids c), w)
  | .evaluate id r =>
    let (o, cache) := w.store.evaluate id r w.cache
    (.evaluated o, ⟨w.store, cache⟩)

/-- Carries calls out one after the other. -/
def State.run (w : State) : List Call → List Answer × State
  | [] => ([], w)
  | c :: cs => ((w.call c).1 :: ((w.call c).2.run cs).1, ((w.call c).2.run cs).2)

/-- The rule that a call answers to have created. -/
def Answer.created? : Answer → Option StoredRule
  | .created o => o.result.toOption
  | _ => none

/-- The rule that a call adds to a store with the policy: that of a creation whose text compiles. -/
def Call.added (policy : ParenPolicy) : Call → Option StoredRule
  | .create id createdAt rule =>
    match (Tree.compile policy rule).result with
    | .ok tree => some ⟨id, rule, tree, createdAt⟩
    | .error _ => none
  | _ => none

/-- The rules that calls add to a store with the policy, in the order of the calls. -/
def history (policy : ParenPolicy) (calls : List Call) : List StoredRule :=
  calls.filterMap (Call.added policy)

/-! ## What a call does to the store -/

namespace State

variable (w : State)

/-- **A call adds its rule, if it has one, and leaves the store alone otherwise**, and it answers to
have created that rule and no other. -/
theorem store_call (c : Call) :
    (∃ r, c.added w.store.policy = some r ∧ (w.call c).2.store = w.store.add r ∧
      (w.call c).1.created? = some r) ∨
    (c.added w.store.policy = none ∧ (w.call c).2.store = w.store ∧
      (w.call c).1.created? = none) := by
  cases c with
  | create id createdAt rule =>
    cases h : (Tree.compile w.store.policy rule).result with
    | ok tree =>
      refine .inl ⟨⟨id, rule, tree, createdAt⟩, ?_, ?_, ?_⟩
      · simp only [Call.added, h]
      · simp only [call, Store.create, h]
      · simp only [call, Store.create, h]
        rfl
    | error e =>
      refine .inr ⟨?_, ?_, ?_⟩
      · simp only [Call.added, h]
      · simp only [call, Store.create, h]
      · simp only [call, Store.create, h]
        rfl
  | get id => exact .inr ⟨rfl, rfl, rfl⟩
  | list => exact .inr ⟨rfl, rfl, rfl⟩
  | combine ids c => exact .inr ⟨rfl, rfl, rfl⟩
  | evaluate id r => exact .inr ⟨rfl, rfl, rfl⟩

/-- A call answers to have created the rule that it adds. -/
theorem created?_call (c : Call) : (w.call c).1.created? = c.added w.store.policy := by
  rcases w.store_call c with ⟨r, hadded, -, hr⟩ | ⟨hadded, -, hr⟩
  · rw [hadded, hr]
  · rw [hadded, hr]

/-- A call that does not answer to have created a rule leaves the store as it was. -/
theorem store_call_of_created?_eq_none {w : State} {c : Call}
    (h : (w.call c).1.created? = none) : (w.call c).2.store = w.store := by
  rcases w.store_call c with ⟨r, -, -, hr⟩ | ⟨-, hs, -⟩
  · cases h.symm.trans hr
  · exact hs

theorem reachable_call {w : State} (h : w.store.Reachable) (c : Call) :
    (w.call c).2.store.Reachable := by
  cases c with
  | create id createdAt rule => exact .created h id createdAt rule
  | get id => exact h
  | list => exact h
  | combine ids c => exact h
  | evaluate id r => exact h

/-! ## What a run does to the store -/

theorem reachable_run {w : State} (h : w.store.Reachable) (calls : List Call) :
    (w.run calls).2.store.Reachable := by
  induction calls generalizing w with
  | nil => exact h
  | cons c calls ih => exact ih (reachable_call h c)

/-- **The rules of a store are those that calls added**, in the order of the calls, and just those
were answered to be created.  The policy stays. -/
theorem rules_run (calls : List Call) :
    (w.run calls).2.store.policy = w.store.policy ∧
      (w.run calls).2.store.rules = w.store.rules ++ history w.store.policy calls ∧
      (w.run calls).1.filterMap Answer.created? = history w.store.policy calls := by
  induction calls generalizing w with
  | nil => exact ⟨rfl, (List.append_nil _).symm, rfl⟩
  | cons c calls ih =>
    obtain ⟨hpolicy, hrules, hanswers⟩ := ih (w.call c).2
    rcases w.store_call c with ⟨r, hadded, hs, hr⟩ | ⟨hadded, hs, hr⟩
    · rw [hs] at hpolicy hrules hanswers
      refine ⟨hpolicy, ?_, ?_⟩
      · rw [run, hrules, history, history, List.filterMap_cons_some hadded]
        simp [add]
      · rw [run, history, List.filterMap_cons_some hr, List.filterMap_cons_some hadded]
        exact congrArg (r :: ·) hanswers
    · rw [hs] at hpolicy hrules hanswers
      refine ⟨hpolicy, ?_, ?_⟩
      · rw [run, hrules, history, history, List.filterMap_cons_none hadded]
      · rw [run, history, List.filterMap_cons_none hr, List.filterMap_cons_none hadded]
        exact hanswers

end State

/-! ## The index of a store without repeated identifiers -/

namespace Valid

variable {s : Store}

/-- **The index is the inverse of the list of rules.** -/
theorem lookup_eq_some_iff (h : s.Valid) (hids : (s.rules.map StoredRule.id).Nodup) {id : String}
    {place : Nat} :
    s.index.lookup id = some place ↔ ∃ r, s.rules[place]? = some r ∧ r.id = id := by
  have hleads : ∀ {p : Nat}, s.index.lookup id = some p →
      ∃ r, s.rules[p]? = some r ∧ r.id = id := by
    intro p hp
    obtain ⟨before, after, hindex, -⟩ := List.lookup_eq_some_iff.mp hp
    exact h.indexed (id, p) (by rw [hindex]; simp)
  constructor
  · exact hleads
  · rintro ⟨r, hr, rfl⟩
    obtain ⟨p, hp⟩ := h.known r (List.mem_of_getElem? hr)
    have hsome : (s.index.lookup r.id).isSome := List.lookup_isSome_iff.mpr ⟨_, hp, BEq.rfl⟩
    obtain ⟨found, hfound⟩ := Option.isSome_iff_exists.mp hsome
    obtain ⟨r', hr', hid⟩ := hleads hfound
    -- two places with one identifier are one place
    have hlt : found < (s.rules.map StoredRule.id).length := by
      rw [List.length_map]
      exact (List.getElem?_eq_some_iff.mp hr').1
    have hsame : found = place := by
      refine (List.getElem?_inj hlt hids).mp ?_
      rw [List.getElem?_map, List.getElem?_map, hr', hr, Option.map_some, Option.map_some, hid]
    rw [hfound, hsame]

theorem get_of_mem (h : s.Valid) (hids : (s.rules.map StoredRule.id).Nodup) {r : StoredRule}
    (hr : r ∈ s.rules) : s.get r.id = .ok r := by
  obtain ⟨place, hplace⟩ := List.mem_iff_getElem?.mp hr
  have hl : s.index.lookup r.id = some place := (h.lookup_eq_some_iff hids).mpr ⟨r, hplace, rfl⟩
  rw [get, get?, hl, Option.bind_some, hplace]

theorem get_of_not_mem (h : s.Valid) {id : String} (hid : id ∉ s.rules.map StoredRule.id) :
    s.get id = .error (.ruleNotFound id) := by
  have hl : s.index.lookup id = none := by
    cases hl : s.index.lookup id with
    | none => rfl
    | some place =>
      obtain ⟨before, after, hindex, -⟩ := List.lookup_eq_some_iff.mp hl
      obtain ⟨r, hr, rfl⟩ := h.indexed (id, place) (by rw [hindex]; simp)
      exact absurd (List.mem_map_of_mem (List.mem_of_getElem? hr)) hid
  rw [get, get?, hl, Option.bind_none]

end Valid

/-! ## Questions about several rules -/

section Questions

variable {s : Store}

theorem getAll_of_get {rs : List StoredRule} (h : ∀ r ∈ rs, s.get r.id = .ok r) :
    s.getAll (rs.map StoredRule.id) = .ok rs := by
  induction rs with
  | nil => rfl
  | cons r rs ih =>
    rw [List.map_cons, getAll, h r List.mem_cons_self, Except.bind,
      ih fun x hx => h x (List.mem_cons_of_mem _ hx)]
    rfl

/-- The first identifier without a rule is the error. -/
theorem getAll_of_get_error {rs : List StoredRule} (h : ∀ r ∈ rs, s.get r.id = .ok r) {id : String}
    {e : RuleError} (hid : s.get id = .error e) (rest : List String) :
    s.getAll (rs.map StoredRule.id ++ id :: rest) = .error e := by
  induction rs with
  | nil =>
    rw [List.map_nil, List.nil_append, getAll, hid]
    rfl
  | cons r rs ih =>
    rw [List.map_cons, List.cons_append, getAll, h r List.mem_cons_self, Except.bind,
      ih fun x hx => h x (List.mem_cons_of_mem _ hx)]
    rfl

theorem combine_of_getAll {ids : List String} {rs : List StoredRule} (h : s.getAll ids = .ok rs)
    (c : Connective) : s.combine ids c = Tree.combine c (rs.map StoredRule.tree) := by
  rw [combine, h]
  rfl

theorem combine_of_getAll_error {ids : List String} {e : RuleError} (h : s.getAll ids = .error e)
    (c : Connective) : s.combine ids c = ⟨[], .error e⟩ := by
  rw [combine, h]
  rfl

theorem cache_evaluate {id : String} {rule : StoredRule} (h : s.get id = .ok rule) (r : Record)
    (k : Cache) : (s.evaluate id r k).2 = ((rule.tree.evaluate r).runOn k).2 := by
  simp only [evaluate, h]
  split <;> rename_i heq <;> rw [heq]

end Questions

/-! ## The refinement -/

/-- **A store answers from a list of rules alone.**  The rules are the list, and the index maps the
identifier of each to its place and nothing else.  A rule is found by its identifier, is joined in
the order and as often as it is named, and is evaluated as its tree; every rule is what its text
compiles to under the policy.  An identifier that no rule of the list has is the error of every
question that names it, the first such one if there are several. -/
structure Refines (policy : ParenPolicy) (h : List StoredRule) (s : Store) : Prop where
  policy_eq : s.policy = policy
  rules_eq : s.rules = h
  compiled : ∀ r ∈ h, (Tree.compile policy r.source).result = .ok r.tree
  lookup_iff : ∀ (id : String) (place : Nat),
    s.index.lookup id = some place ↔ ∃ r, h[place]? = some r ∧ r.id = id
  size_eq : s.size = h.length
  isEmpty_iff : s.isEmpty ↔ s.size = 0
  get_known : ∀ r ∈ h, s.get r.id = .ok r
  get_unknown : ∀ id, id ∉ h.map StoredRule.id → s.get id = .error (.ruleNotFound id)
  combine_none : ∀ c, (s.combine [] c).result = .ok none
  combine_known : ∀ (rs : List StoredRule) (c : Connective), (∀ r ∈ rs, r ∈ h) →
    s.combine (rs.map StoredRule.id) c = Tree.combine c (rs.map StoredRule.tree)
  combine_unknown : ∀ (rs : List StoredRule) (id : String) (rest : List String) (c : Connective),
    (∀ r ∈ rs, r ∈ h) → id ∉ h.map StoredRule.id →
      (s.combine (rs.map StoredRule.id ++ id :: rest) c).result = .error (.ruleNotFound id)
  evaluate_known : ∀ r ∈ h, ∀ (data : Record) (k : Cache),
    (s.evaluate r.id data k).1.result = ((r.tree.evaluate data).runOn k).1 ∧
      (s.evaluate r.id data k).2 = ((r.tree.evaluate data).runOn k).2
  evaluate_unknown : ∀ id, id ∉ h.map StoredRule.id → ∀ (data : Record) (k : Cache),
    s.evaluate id data k = (⟨[], .error (.ruleNotFound id)⟩, k)

theorem Valid.refines {s : Store} (h : s.Valid) (hids : (s.rules.map StoredRule.id).Nodup) :
    s.Refines s.policy s.rules where
  policy_eq := rfl
  rules_eq := rfl
  compiled := h.compiled
  lookup_iff _ _ := h.lookup_eq_some_iff hids
  size_eq := rfl
  isEmpty_iff := List.isEmpty_iff_length_eq_zero
  get_known _ hr := h.get_of_mem hids hr
  get_unknown _ hid := h.get_of_not_mem hid
  combine_none _ := rfl
  combine_known _ c hrs :=
    combine_of_getAll (getAll_of_get fun r hr => h.get_of_mem hids (hrs r hr)) c
  combine_unknown rs id rest c hrs hid := by
    have hget : ∀ r ∈ rs, s.get r.id = .ok r := fun r hr => h.get_of_mem hids (hrs r hr)
    rw [combine_of_getAll_error (getAll_of_get_error hget (h.get_of_not_mem hid) rest)]
  evaluate_known _ hr data k :=
    ⟨result_evaluate (h.get_of_mem hids hr) data k, cache_evaluate (h.get_of_mem hids hr) data k⟩
  evaluate_unknown id hid data k := by
    simp only [evaluate, h.get_of_not_mem hid]

/-- **A store refines the append-only list of the rules created in it.**  Let no identifier be given
to two rules.  Then, whatever calls are made on a new store and whatever the cache holds, the store
answers every question from the history of the calls (`Refines`), which is also what the calls
answered to have created.  A rule that was once created is found, as it was answered, after any
further calls.  A call that creates nothing, because it fails or because it only asks, leaves the
store as it was. -/
theorem run_refines (policy : ParenPolicy) (k : Cache) (calls : List Call)
    (hids : ((history policy calls).map StoredRule.id).Nodup) :
    ((State.opened policy k).run calls).2.store.Refines policy (history policy calls) ∧
      ((State.opened policy k).run calls).1.filterMap Answer.created? =
        history policy calls ∧
      (∀ (before later : List Call) (c : Call) (r : StoredRule), calls = before ++ c :: later →
        (((State.opened policy k).run before).2.call c).1.created? = some r →
          ((State.opened policy k).run calls).2.store.get r.id = .ok r) ∧
      ∀ c : Call, (((State.opened policy k).run calls).2.call c).1.created? = none →
        (((State.opened policy k).run calls).2.call c).2.store =
          ((State.opened policy k).run calls).2.store := by
  obtain ⟨hpolicy, hrules, hanswers⟩ := (State.opened policy k).rules_run calls
  have hrules' : ((State.opened policy k).run calls).2.store.rules = history policy calls :=
    hrules
  have hvalid := (State.reachable_run (w := .opened policy k) (.opened policy) calls).valid
  have hrefines := hvalid.refines (by rw [hrules']; exact hids)
  rw [hpolicy, hrules'] at hrefines
  refine ⟨hrefines, hanswers, ?_, fun c hc => State.store_call_of_created?_eq_none hc⟩
  intro before later c r hcalls hr
  refine hrefines.get_known r ?_
  -- the rule is the one that the call added, so it is in the history
  rw [State.created?_call, ((State.opened policy k).rules_run before).1] at hr
  rw [hcalls, history]
  exact List.mem_filterMap.mpr ⟨c, by simp, hr⟩

/-- A rule with a stray `)`, a rule with an open `(`, and a rule under the identifier that the
second one did not take. -/
def sampleCalls : List Call :=
  [.create "r1" "noon" "a > 1) AND b > 2", .create "r2" "one" "(a > 1", .evaluate "r1" .empty,
    .create "r2" "two" "c = 'x'"]

/-- The first rule that `sampleCalls` add to a store under the draining policy. -/
def drainedRule : StoredRule :=
  ⟨"r1", "a > 1) AND b > 2", .node .and (.leaf "a > 1") (.leaf "b > 2"), "noon"⟩

/-- The second rule that `sampleCalls` add. -/
def plainRule : StoredRule := ⟨"r2", "c = 'x'", .leaf "c = 'x'", "two"⟩

/-- After `sampleCalls` the first rule is still found, the rules are joined in the order in which
they are named, one of them twice, and of two unknown identifiers the first one is the error. -/
theorem run_refines_sample :
    ((history .drain sampleCalls).map StoredRule.id).Nodup ∧
      ((State.opened .drain .initial).run sampleCalls).2.store.rules =
        [drainedRule, plainRule] ∧
      ((State.opened .drain .initial).run sampleCalls).2.store.get "r1" = .ok drainedRule ∧
      (((State.opened .drain .initial).run sampleCalls).2.store.combine ["r2", "r1", "r2"]
        .or).result = .ok (some (.node .or (.node .or (.leaf "c = 'x'")
          (.node .and (.leaf "a > 1") (.leaf "b > 2"))) (.leaf "c = 'x'"))) ∧
      (((State.opened .drain .initial).run sampleCalls).2.store.combine ["r1", "r3", "r4"]
        .and).result = .error (.ruleNotFound "r3") := by
  have hh : history .drain sampleCalls = [drainedRule, plainRule] := by cbv
  have hids : ((history .drain sampleCalls).map StoredRule.id).Nodup := by
    rw [hh]
    decide
  obtain ⟨hrefines, -, hforever, -⟩ := run_refines .drain .initial sampleCalls hids
  rw [hh] at hrefines
  refine ⟨hids, hrefines.rules_eq, ?_, ?_, ?_⟩
  · have hadded : (Call.create "r1" "noon" "a > 1) AND b > 2").added .drain =
        some drainedRule := by decide +kernel
    refine hforever [] (sampleCalls.drop 1) _ drainedRule rfl ?_
    rw [State.created?_call]
    exact hadded
  · have hc := hrefines.combine_known [plainRule, drainedRule, plainRule] .or (by simp)
    exact congrArg Outcome.result hc
  · exact hrefines.combine_unknown [drainedRule] "r3" ["r4"] .and (by simp) (by decide)

end Rulebook.Store
