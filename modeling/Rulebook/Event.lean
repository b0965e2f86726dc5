import Rulebook.Connective
import Rulebook.Error

/-!
# Events and outcomes

Events are what the work on rules reports as it goes on, and outcomes carry the events of a piece of
work beside its result. Work that fails keeps the events up to its failure.
-/

namespace Rulebook

/-- Something worth reporting. -/
inductive Event
  /-- a `)` that closed nothing flushed the waiting connectives -/
  | strayDrained
  /-- a rule was put into post-order, with its count of tokens before and after -/
  | compiling (tokens postorder : Nat)
  /-- rules were joined under a connective -/
  | combined (count : Nat) (c : Connective)
  /-- a rule was stored, with its count of conditions -/
  | stored (id : String) (leaves : Nat)
  /-- a stored rule was evaluated -/
  | evaluated (id : String) (verdict : Bool)
deriving DecidableEq, Repr

namespace Event

/-- How urgent an event is. -/
inductive Level
  | warn
  | debug
deriving DecidableEq, Repr

/-- A value that goes with an event. -/
inductive Datum
  | count (n : Nat)
  | word (s : String)
  | flag (b : Bool)
deriving DecidableEq, Repr

/-- How urgent an event is. -/
def level : Event → Level
  | .strayDrained => .warn
  | _ => .debug

/-- What an event says. -/
def message : Event → String
  | .strayDrained => "stray ')' drained the operator stack"
  | .compiling .. => "compiling rule"
  | .combined .. => "combined rules"
  | .stored .. => "stored rule"
  | .evaluated .. => "evaluated rule"

/-- The values that go with an event, by name. -/
def data : Event → List (String × Datum)
  | .strayDrained => []
  | .compiling tokens postorder => [("tokens", .count tokens), ("postfix", .count postorder)]
  | .combined count c => [("count", .count count), ("connective", .word c.word)]
  | .stored id leaves => [("rule_id", .word id), ("leaves", .count leaves)]
  | .evaluated id verdict => [("rule_id", .word id), ("verdict", .flag verdict)]

end Event

/-- A result together with the events on the way to it, for work that may fail with an `ε`. -/
structure Outcome (ε α : Type) where
  /-- the events, in the order they happened -/
  events : List Event
  result : Except ε α

namespace Outcome

variable {ε δ α β : Type}

/-- Puts events before those of an outcome. -/
def after (events : List Event) (o : Outcome ε α) : Outcome ε α := ⟨events ++ o.events, o.result⟩

/-- A result without events. -/
def ofExcept (r : Except ε α) : Outcome ε α := ⟨[], r⟩

/-- Reports one event. -/
def emit (e : Event) : Outcome ε Unit := ⟨[e], .ok ()⟩

/-- The outcome with its failure seen as another. -/
def mapError (f : ε → δ) (o : Outcome ε α) : Outcome δ α := ⟨o.events, o.result.mapError f⟩

instance : Monad (Outcome ε) where
  pure a := ⟨[], .ok a⟩
  bind o f :=
    match o.result with
    | .ok a => (f a).after o.events
    | .error e => ⟨o.events, .error e⟩

end Outcome

end Rulebook
