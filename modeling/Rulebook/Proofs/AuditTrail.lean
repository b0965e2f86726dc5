import Rulebook.Proofs.Balance
import Rulebook.Proofs.Conservation
import Rulebook.Proofs.StoreHistory

/-! # The events of a store are its audit trail

What a run reports can be foretold from its calls and from what they answered (`Store.trail`).
Reordering reports each stray `)` that the policy drains (`events_toPostorder`); if it succeeds,
compiling reports how many tokens there were and how many are left without the parentheses
(`Tree.events_compile`), and only then does it build the tree.  A creation that succeeds reports the
rule with the number of its conditions, which is that of the tokens (`Store.events_create`).  Rules
are joined if there are any to be joined and all of them are known (`Store.events_combine`), and an
evaluation reports what it answers (`Store.events_evaluate`).

So every call leaves the events that the trail has for it (`Store.State.events_call`), and the rules
that the trail knows are those of the store, call after call.
-/
namespace Rulebook

namespace Outcome

variable {ε α β : Type}

/-- A second stage adds its events, if it is reached. -/
theorem events_bind (o : Outcome ε α) (f : α → Outcome ε β) :
    (o >>= f).events = o.events ++
      match o.result with
      | .ok a => (f a).events
      | .error _ => [] := by
  rcases o with ⟨events, e | a⟩
  · exact (List.append_nil events).symm
  · rfl

end Outcome

/-! ## Compiling -/

namespace Token

/-- How many `)` of a list are drained under a policy. -/
def drained : ParenPolicy → List Token → Nat
  | .reject, _ => 0
  | .drain, ts => strays 0 ts

/-- What compiling a list of tokens reports: each `)` that is drained, and then, if the list can be
put into post-order, how many tokens it has and how many of them are no parentheses. -/
def compilationTrail (policy : ParenPolicy) (ts : List Token) : List Event :=
  List.replicate (drained policy ts) .strayDrained ++
    if (toPostorder policy ts).result.isOk then
      [.compiling ts.length (ts.length - ts.countP isParenthesis)]
    else []

theorem length_withoutParentheses (ts : List Token) :
    (withoutParentheses ts).length = ts.length - ts.countP isParenthesis := by
  have hboth : ts.countP isParenthesis + (withoutParentheses ts).length = ts.length := by
    simpa [withoutParentheses, List.countP_eq_length_filter] using
      (List.length_eq_countP_add_countP isParenthesis (l := ts)).symm
  omega

end Token

open Token in
/-- **Reordering reports the `)` that are drained**, whether it succeeds or not. -/
theorem events_toPostorder (policy : ParenPolicy) (ts : List Token) :
    (toPostorder policy ts).events = List.replicate (drained policy ts) .strayDrained := by
  cases policy with
  | drain =>
    obtain ⟨r, hdrain, -⟩ := exists_toPostorder ts
    rw [hdrain]
    rfl
  | reject =>
    by_cases h : strays 0 ts = 0
    · -- without a stray `)` the list is read as under the draining policy
      obtain ⟨r, -, hreject⟩ := exists_toPostorder ts
      rw [h, List.replicate_zero, List.nil_append] at hreject
      rw [hreject]
      rfl
    · rw [toPostorder_reject_of_strays h]
      rfl

theorem length_of_toPostorder {policy : ParenPolicy} {ts post : List Token}
    (h : (toPostorder policy ts).result = .ok post) :
    post.length = ts.length - ts.countP Token.isParenthesis := by
  rw [(toPostorder_perm h).length_eq, Token.length_withoutParentheses]

namespace Tree

/-- **What compiling reports** does not depend on whether the tree can be built. -/
theorem events_compile {policy : ParenPolicy} {rule : String} {ts : List Token}
    (h : Token.tokenize rule = .ok ts) :
    (compile policy rule).events = Token.compilationTrail policy ts := by
  rw [compile, h, Outcome.ofExcept_ok_bind, Outcome.events_bind, events_toPostorder,
    Token.compilationTrail]
  cases hpost : (toPostorder policy ts).result with
  | error e => rfl
  | ok post =>
    rw [← length_of_toPostorder hpost]
    rfl

/-- A rule without tokens is refused without a report. -/
theorem events_compile_of_tokenize_eq_error {policy : ParenPolicy} {rule : String} {e : RuleError}
    (h : Token.tokenize rule = .error e) : (compile policy rule).events = [] := by
  rw [compile, h]
  rfl

/-- A compiled tree counts as many leaves as its rule has conditions. -/
theorem leafCount_of_compile {policy : ParenPolicy} {rule : String} {ts : List Token} {t : Tree}
    (hts : Token.tokenize rule = .ok ts) (h : (compile policy rule).result = .ok t) :
    t.leafCount = (Token.conditions ts).length := by
  rw [t.leafCount_eq_length_leaves, leaves_of_compile h, (Token.tokenize_eq_ok_iff.mp hts).1]

end Tree

namespace Store

/-! ## The trail -/

/-- What a call reports, in the order it happens. -/
def Answer.events : Answer → List Event
  | .created o => o.events
  | .found _ => []
  | .listed _ => []
  | .combined o => o.events
  | .evaluated o => o.events

/-- What the calls of a run report, one after the other. -/
def State.events (w : State) (calls : List Call) : List Event :=
  (w.run calls).1.flatMap Answer.events

/-- **What a call has to report**, if the store has a policy and knows some rules and the call is
answered so.  A creation whose rule has tokens reports its compilation, and the rule it stores if it
succeeds.  Rules are reported to be joined exactly if there are any and all of them are known.  An
evaluation that succeeds reports what it answers.  There are no other events. -/
def Call.trail (policy : ParenPolicy) (known : List StoredRule) : Call → Answer → List Event
  | .create id _ rule, answer =>
    match Token.tokenize rule with
    | .error _ => []
    | .ok ts =>
      Token.compilationTrail policy ts ++
        if answer.created?.isSome then [.stored id (Token.conditions ts).length] else []
  | .combine ids c, _ =>
    if ids ≠ [] ∧ ∀ id ∈ ids, id ∈ known.map StoredRule.id then [.combined ids.length c] else []
  | .evaluate id _, .evaluated o =>
    match o.result with
    | .ok verdict => [.evaluated id verdict]
    | .error _ => []
  | _, _ => []

/-- What each of some calls has to report.  The rules that are known to a call are those known
before and those that earlier calls answered to have created. -/
def trail (policy : ParenPolicy) (known : List StoredRule) :
    List Call → List Answer → List (List Event)
  | c :: calls, answer :: answers =>
    c.trail policy known answer ::
      trail policy (known ++ answer.created?.toList) calls answers
  | _, _ => []

/-! ## What one call reports -/

section Calls

variable {s : Store}

/-- A creation reports its compilation, and the rule that it stores. -/
theorem events_create (s : Store) (id createdAt rule : String) :
    (s.create id createdAt rule).1.events = (Tree.compile s.policy rule).events ++
      match (Tree.compile s.policy rule).result with
      | .ok tree => [.stored id tree.leafCount]
      | .error _ => [] := by
  cases h : (Tree.compile s.policy rule).result with
  | ok tree => simp only [create, h]
  | error e => simp only [create, h, List.append_nil]

/-- An identifier is known exactly if a rule is found by it. -/
theorem Valid.exists_get_iff (h : s.Valid) {id : String} :
    (∃ r, s.get id = .ok r) ↔ id ∈ s.rules.map StoredRule.id := by
  constructor
  · rintro ⟨r, hr⟩
    by_contra hid
    rw [h.get_of_not_mem hid] at hr
    cases hr
  · intro hid
    obtain ⟨rule, hrule, rfl⟩ := List.mem_map.mp hid
    obtain ⟨found, -, hfound⟩ := h.exists_get_eq_ok hrule
    exact ⟨found, hfound⟩

/-- Rules are found by several identifiers if one is found by each of them. -/
theorem Valid.getAll_cases (h : s.Valid) (ids : List String) :
    ((∀ id ∈ ids, id ∈ s.rules.map StoredRule.id) ∧
      ∃ rs, s.getAll ids = .ok rs ∧ rs.length = ids.length) ∨
    ((¬ ∀ id ∈ ids, id ∈ s.rules.map StoredRule.id) ∧ ∃ e, s.getAll ids = .error e) := by
  induction ids with
  | nil => exact .inl ⟨List.forall_mem_nil _, [], rfl, rfl⟩
  | cons id ids ih =>
    rw [List.forall_mem_cons, getAll, ← h.exists_get_iff]
    cases hget : s.get id with
    | error e =>
      refine .inr ⟨?_, e, rfl⟩
      rintro ⟨⟨r, hr⟩, -⟩
      cases hr
    | ok r =>
      rcases ih with ⟨hall, rs, hrs, hlength⟩ | ⟨hnot, e, he⟩
      · refine .inl ⟨⟨⟨r, rfl⟩, hall⟩, r :: rs, ?_, congrArg (· + 1) hlength⟩
        rw [hrs]
        rfl
      · refine .inr ⟨fun hall => hnot hall.2, e, ?_⟩
        rw [he]
        rfl

/-- Joining trees is reported if there are any. -/
theorem events_combine_trees (c : Connective) (ts : List Tree) :
    (Tree.combine c ts).events = if ts = [] then [] else [.combined ts.length c] := by
  cases ts with
  | nil => rfl
  | cons t ts => rfl

/-- **Joining rules is reported** exactly if there are any and all of them are known. -/
theorem Valid.events_combine (h : s.Valid) (ids : List String) (c : Connective) :
    (s.combine ids c).events =
      if ids ≠ [] ∧ ∀ id ∈ ids, id ∈ s.rules.map StoredRule.id then [.combined ids.length c]
      else [] := by
  rcases h.getAll_cases ids with ⟨hall, rs, hrs, hlength⟩ | ⟨hnot, e, he⟩
  · rw [combine_of_getAll hrs, events_combine_trees, List.length_map, hlength]
    by_cases hids : ids = []
    · subst hids
      obtain rfl := List.eq_nil_of_length_eq_zero hlength
      rfl
    · have hmap : rs.map StoredRule.tree ≠ [] := by
        intro hnil
        rw [List.map_eq_nil_iff.mp hnil] at hlength
        exact hids (List.eq_nil_of_length_eq_zero hlength.symm)
      rw [if_neg hmap, if_pos ⟨hids, hall⟩]
  · rw [combine_of_getAll_error he, if_neg fun hboth => hnot hboth.2]

/-- **An evaluation reports its answer**, if it has one. -/
theorem events_evaluate (s : Store) (id : String) (r : Record) (k : Cache) :
    (s.evaluate id r k).1.events =
      match (s.evaluate id r k).1.result with
      | .ok verdict => [.evaluated id verdict]
      | .error _ => [] := by
  cases hget : s.get id with
  | error e => simp only [evaluate, hget]
  | ok rule =>
    cases hrun : (rule.tree.evaluate r).runOn k with
    | mk result k' => cases result <;> simp only [evaluate, hget, hrun]

end Calls

namespace State

variable {w : State}

/-- **Every call leaves the events that the trail has for it.** -/
theorem events_call (h : w.store.Valid) (c : Call) :
    (w.call c).1.events = c.trail w.store.policy w.store.rules (w.call c).1 := by
  cases c with
  | create id createdAt rule =>
    have hevents : (w.call (.create id createdAt rule)).1.events =
        (w.store.create id createdAt rule).1.events := rfl
    rw [hevents, events_create, Call.trail, created?_call, Call.added]
    cases hts : Token.tokenize rule with
    | error e =>
      have hresult : (Tree.compile w.store.policy rule).result = .error e := by
        rw [Tree.compile, hts]
        rfl
      rw [Tree.events_compile_of_tokenize_eq_error hts, hresult]
      rfl
    | ok ts =>
      rw [Tree.events_compile hts]
      cases htree : (Tree.compile w.store.policy rule).result with
      | error e => rfl
      | ok tree =>
        dsimp only
        rw [Tree.leafCount_of_compile hts htree]
        rfl
  | get id => rfl
  | list => rfl
  | combine ids c => exact h.events_combine ids c
  | evaluate id r => exact events_evaluate w.store id r w.cache

/-- The rules of the store after a call are those before it and the one it answers to have
created. -/
theorem rules_call (c : Call) :
    (w.call c).2.store.policy = w.store.policy ∧
      (w.call c).2.store.rules = w.store.rules ++ (w.call c).1.created?.toList := by
  rcases w.store_call c with ⟨r, -, hs, hr⟩ | ⟨-, hs, hr⟩
  · rw [hs, hr]
    exact ⟨rfl, rfl⟩
  · rw [hs, hr]
    exact ⟨rfl, (List.append_nil _).symm⟩

end State

/-- **The events of a store are its audit trail.**  Whatever calls are made on a store that can be
reached, and whatever the cache holds, each of them reports what the trail has for it, and the
events of the run are these, call after call. -/
theorem events_are_trail {w : State} (h : w.store.Reachable) (calls : List Call) :
    (w.run calls).1.map Answer.events =
        trail w.store.policy w.store.rules calls (w.run calls).1 ∧
      w.events calls = (trail w.store.policy w.store.rules calls (w.run calls).1).flatten := by
  have hcalls : (w.run calls).1.map Answer.events =
      trail w.store.policy w.store.rules calls (w.run calls).1 := by
    induction calls generalizing w with
    | nil => rfl
    | cons c calls ih =>
      obtain ⟨hpolicy, hrules⟩ := w.rules_call c
      have hrest := ih (State.reachable_call h c)
      rw [hpolicy, hrules] at hrest
      rw [State.run, List.map_cons, trail, State.events_call h.valid, hrest]
  refine ⟨hcalls, ?_⟩
  rw [State.events, List.flatMap_def, hcalls]

/-- A rule with a stray `)`, one that has a stray `)` and a `(` that is never closed, one that goes
into post-order but makes no tree, and one more rule.  Then rules are joined, of which one is named
twice, others are asked for that are not all known, and a rule is evaluated. -/
def auditedCalls : List Call :=
  [.create "r1" "noon" "a > 1) AND b > 2", .create "r2" "one" ") (c > 3",
    .create "r2" "two" "a > 1 b > 2", .create "r2" "three" "c = 'x'", .list,
    .combine ["r2", "r1", "r2"] .or, .combine ["r1", "r3"] .or,
    .evaluate "r2" (.ofList [("c", .text "x")])]

/-- The second creation gets no further than its stray `)`, the third reports its compilation only,
and the second request to join rules reports nothing. -/
theorem events_are_trail_audited :
    (State.opened .drain .initial).store.Reachable ∧
      (State.opened .drain .initial).events auditedCalls =
        [.strayDrained, .compiling 4 3, .stored "r1" 2, .strayDrained, .compiling 2 2,
          .compiling 1 1, .stored "r2" 1, .combined 3 .or, .evaluated "r2" true] := by
  have hopened : (State.opened .drain .initial).store.Reachable := .opened .drain
  refine ⟨hopened, ?_⟩
  rw [(events_are_trail hopened auditedCalls).2]
  decide +kernel

end Store

end Rulebook
