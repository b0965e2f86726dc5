import Rulebook.Condition

/-!
# The cache of conditions

The cache keeps conditions that are already taken apart, by their texts. It holds at most as many as
its capacity, and loses all of them at once when one more is to come in. What cannot be taken apart
is never kept.
-/

namespace Rulebook

/-- The conditions that are kept, each with its text. -/
structure Cache where
  capacity : Nat
  /-- the entries, the latest first -/
  entries : List (String × Condition)
deriving Repr

namespace Cache

/-- The capacity unless another is set. -/
def defaultCapacity : Nat := 2048

/-- The cache at the beginning. -/
def initial : Cache := ⟨defaultCapacity, []⟩

/-- How many conditions are kept. -/
def size (k : Cache) : Nat := k.entries.length

/-- The condition kept for a text. -/
def get? (k : Cache) (text : String) : Option Condition := k.entries.lookup text

/-- Keeps a condition that is not kept yet. A full cache is emptied first, and a cache without
capacity keeps nothing. -/
def keep (k : Cache) (text : String) (c : Condition) : Cache :=
  if k.capacity = 0 then k
  else if k.capacity ≤ k.size then { k with entries := [(text, c)] }
  else { k with entries := (text, c) :: k.entries }

/-- Forgets every condition. -/
def clear (k : Cache) : Cache := { k with entries := [] }

/-- Sets the capacity. The conditions are forgotten if they are too many for it. -/
def setCapacity (k : Cache) (capacity : Nat) : Cache :=
  if capacity < k.size then ⟨capacity, []⟩ else { k with capacity := capacity }

end Cache

/-- Work that looks conditions up in the cache and may fail; the cache outlives a failure. -/
abbrev Cached := ExceptT RuleError (StateM Cache)

namespace Cached

/-- Carries work out. -/
def runOn {α : Type} (x : Cached α) (k : Cache) : Except RuleError α × Cache :=
  (ExceptT.run x).run k

/-- The condition of a text, from the cache if it is kept there. -/
def condition (text : String) : Cached Condition := ExceptT.mk fun k =>
  match k.get? text with
  | some c => (.ok c, k)
  | none =>
    match Condition.parse text with
    | .ok c => (.ok c, k.keep text c)
    | .error e => (.error e, k)

end Cached

end Rulebook
