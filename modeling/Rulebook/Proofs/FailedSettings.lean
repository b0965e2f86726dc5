import Rulebook.Proofs.CacheBounds
import Rulebook.Proofs.EngineRuns

/-! # What a failed change of settings leaves behind

A change of settings can fail in two ways (`Session.configure_cases`).  If the settings cannot be
read, nothing has happened yet, and the session is as it was.  If their log directive is refused,
the settings in force are as they were, but the cache has the capacity that was asked for, and it
has lost its conditions if they were too many for that (`Settings.Refused`).  So a failed change
leaves no trace only if it could not be read, or asked for the capacity that the cache had.

This holds whatever the log filter takes, in every session that calls can reach (`failed_change`),
and `refused_directive_empties` is a change that fails and takes all conditions with it.
-/
namespace Rulebook

variable {check : LogCheck}

/-- The sessions that calls can reach. -/
def Session.Reachable (check : LogCheck) (s : Session) : Prop :=
  ∃ calls : List Engine.Call, (Engine.initial.run check calls).session = s

theorem Session.Reachable.cache {s : Session} (h : s.Reachable check) : s.cache.Reachable := by
  obtain ⟨calls, rfl⟩ := h
  exact Engine.reachable_run check calls

/-- What settings whose directive is refused for a reason make of the cache `k`. -/
structure Settings.Refused (check : LogCheck) (settings : Settings) (directive reason : String)
    (k k' : Cache) : Prop where
  given : settings.logDirective = some directive
  invalid : check directive = some reason
  capacity_eq : k'.capacity = settings.cacheCapacity
  entries_eq : k'.entries = if settings.cacheCapacity < k.size then [] else k.entries
  unchanged_iff : k' = k ↔ settings.cacheCapacity = k.capacity

theorem Settings.refused_setCapacity {settings : Settings} {d reason : String} {k : Cache}
    (hk : k.Bounded) (hd : settings.logDirective = some d) (hnot : check d = some reason) :
    settings.Refused check d reason k (k.setCapacity settings.cacheCapacity) where
  given := hd
  invalid := hnot
  capacity_eq := k.capacity_setCapacity settings.cacheCapacity
  entries_eq := k.entries_setCapacity settings.cacheCapacity
  unchanged_iff := hk.setCapacity_eq_self_iff settings.cacheCapacity

/-- **A failed change of settings keeps the settings, but not the cache.**  In every session that
calls can reach, a change that fails leaves the settings in force.  Either the new settings could
not be read, and then the cache is left as well; or their log directive is refused, and then the
cache has the new capacity and only the conditions that fit.  The same becomes of the cache if
settings, read from wherever, are put in force on it alone.  Nothing is supposed of the check of log
directives. -/
theorem failed_change {s : Session} (hs : s.Reachable check) :
    (∀ (config : Option HostValue) (vars : String → Option String) (e : CallError) (s' : Session),
      s.configure check config vars = (.error e, s') →
        s'.settings = s.settings ∧
          (Session.settingsOf config vars = .error e ∧ s'.cache = s.cache ∨
            ∃ settings d reason, Session.settingsOf config vars = .ok settings ∧
              e = .refused (.badDirective d reason) ∧
              settings.Refused check d reason s.cache s'.cache)) ∧
    ∀ (settings : Settings) (e : RuleError) (k' : Cache),
      settings.apply check s.cache = (.error e, k') →
        ∃ d reason, e = .badDirective d reason ∧ settings.Refused check d reason s.cache k' := by
  have hk : s.cache.Bounded := hs.cache.bounded
  constructor
  · intro config vars e s' h
    rcases s.configure_cases check config vars with
      ⟨e', hof, hc⟩ | ⟨settings, -, -, hc⟩ | ⟨settings, d, reason, hof, hd, hnot, hc⟩
    · obtain ⟨he, rfl⟩ := Prod.mk.inj (hc.symm.trans h)
      obtain rfl := Except.error.inj he
      exact ⟨rfl, .inl ⟨hof, rfl⟩⟩
    · cases hc.symm.trans h
    · obtain ⟨he, rfl⟩ := Prod.mk.inj (hc.symm.trans h)
      obtain rfl := Except.error.inj he
      exact ⟨rfl, .inr ⟨settings, d, reason, hof, rfl, Settings.refused_setCapacity hk hd hnot⟩⟩
  · intro settings e k' h
    rcases settings.apply_cases check s.cache with ⟨-, ha⟩ | ⟨d, reason, hd, hnot, ha⟩
    · cases ha.symm.trans h
    · obtain ⟨he, rfl⟩ := Prod.mk.inj (ha.symm.trans h)
      obtain rfl := Except.error.inj he
      exact ⟨d, reason, rfl, Settings.refused_setCapacity hk hd hnot⟩

/-- What a log filter says to a level that there is none of. -/
def noSuchLevel : String :=
  "error parsing level filter: expected one of \"off\", \"error\", \"warn\", \"info\", " ++
    "\"debug\", \"trace\", or a number 0-5"

/-- A log filter that has something against one directive. -/
def loudCheck : LogCheck := fun d => if d = "x=loud" then some noSuchLevel else none

/-- The session after two conditions are looked up. -/
def twoConditions : Session :=
  (Engine.initial.run loudCheck
    [.onCache (.condition "a > 1"), .onCache (.condition "b > 2")]).session

/-- Settings with room for one condition, and with a level that there is none of. -/
def loudSettings : Settings := ⟨.reject, 1, some "x=loud"⟩

/-- The dict of `loudSettings`. -/
def loudDict : HostValue :=
  .ofFields [("cache_capacity", .int 1), ("log_level", .text "x=loud")]

/-- Two changes that fail, one of them since a policy is no text, and the settings put in force on
the cache alone. -/
theorem failed_change_loud :
    (∃ s', twoConditions.configure loudCheck
        (some (.ofFields [("unbalanced_parentheses", .int 1)])) (fun _ => none) =
          (.error .wrongType, s') ∧ s'.settings = twoConditions.settings) ∧
      (∃ s', twoConditions.configure loudCheck (some loudDict) (fun _ => none) =
          (.error (.refused (.badDirective "x=loud" noSuchLevel)), s') ∧
        s'.settings = twoConditions.settings) ∧
      ∃ d reason, loudSettings.Refused loudCheck d reason twoConditions.cache
        (loudSettings.apply loudCheck twoConditions.cache).2 := by
  have hreachable : twoConditions.Reachable loudCheck := ⟨_, rfl⟩
  obtain ⟨hconfigure, happly⟩ := failed_change hreachable
  have hread : twoConditions.configure loudCheck
      (some (.ofFields [("unbalanced_parentheses", .int 1)])) (fun _ => none) =
        (.error .wrongType, _) := Prod.ext (by decide +kernel) rfl
  have hdirective : twoConditions.configure loudCheck (some loudDict) (fun _ => none) =
      (.error (.refused (.badDirective "x=loud" noSuchLevel)), _) :=
    Prod.ext (by decide +kernel) rfl
  have halone : loudSettings.apply loudCheck twoConditions.cache =
      (.error (.badDirective "x=loud" noSuchLevel), _) := Prod.ext (by decide +kernel) rfl
  obtain ⟨d, reason, -, hrefused⟩ := happly _ _ _ halone
  exact ⟨⟨_, hread, (hconfigure _ _ _ _ hread).1⟩,
    ⟨_, hdirective, (hconfigure _ _ _ _ hdirective).1⟩, d, reason, hrefused⟩

/-- **A change of settings fails, and the cache is empty.**  It held two conditions and had room for
many; after the refused change it has room for one and holds none. -/
theorem refused_directive_empties :
    twoConditions.Reachable loudCheck ∧
      (twoConditions.configure loudCheck (some loudDict) fun _ => none).1 =
        .error (.refused (.badDirective "x=loud" noSuchLevel)) ∧
      (twoConditions.cache.size, twoConditions.cache.capacity) = (2, 2048) ∧
      ((twoConditions.configure loudCheck (some loudDict) fun _ => none).2.cache.size,
        (twoConditions.configure loudCheck (some loudDict) fun _ => none).2.cache.capacity) =
          (0, 1) := by
  refine ⟨⟨_, rfl⟩, ?_, ?_, ?_⟩
  · decide +kernel
  · decide +kernel
  · decide +kernel

end Rulebook
