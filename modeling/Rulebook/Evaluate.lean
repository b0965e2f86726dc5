import Rulebook.Cache
import Rulebook.Tree.Walk

/-!
# Evaluating trees

A tree is evaluated on a record. Every leaf is looked at, from left to right, also where its value
could no longer matter, so a text that is no condition is always found out.
-/

namespace Rulebook

namespace Tree

/-- The truth value of a tree on a record. -/
def evaluate (t : Tree) (r : Record) : Cached Bool :=
  t.walk (fun text => do return (← Cached.condition text).holds r) fun c a b => pure (c.apply a b)

end Tree

end Rulebook
