import Rulebook.Event

/-! # Work in stages

What is done in stages gives a result exactly if every stage does.  Work that reports events gives
the result that its stages give, whatever they report.
-/
namespace Rulebook

/-- Two stages give a result exactly if the first gives one from which the second gives it. -/
theorem except_bind_eq_ok_iff {ε α β : Type} {x : Except ε α} {f : α → Except ε β} {b : β} :
    x.bind f = .ok b ↔ ∃ a, x = .ok a ∧ f a = .ok b := by
  cases x with
  | error e =>
    constructor
    · intro h
      cases h
    · rintro ⟨a, ha, -⟩
      cases ha
  | ok a =>
    constructor
    · exact fun h => ⟨a, rfl, h⟩
    · rintro ⟨a', ha, hb⟩
      obtain rfl := Except.ok.inj ha
      exact hb

/-- A slot that is still empty is filled by a stage, and the work goes on from there. -/
theorem fill_eq_ok_iff {ε α β : Type} {slot : Option α} {fault : ε} {x : Except ε α} {b : β}
    (go : Option α → Except ε β) :
    (if slot.isSome then .error fault else x.bind fun a => go (some a)) = .ok b ↔
      slot = none ∧ ∃ next, (∃ a, x = .ok a ∧ next = some a) ∧ go next = .ok b := by
  cases slot with
  | some a => simp
  | none =>
    rw [if_neg (by simp), except_bind_eq_ok_iff]
    constructor
    · rintro ⟨a, ha, hgo⟩
      exact ⟨rfl, some a, ⟨a, ha, rfl⟩, hgo⟩
    · rintro ⟨-, _, ⟨a, ha, rfl⟩, hgo⟩
      exact ⟨a, ha, hgo⟩

namespace Outcome

variable {ε α β : Type}

@[simp] theorem result_bind (o : Outcome ε α) (f : α → Outcome ε β) :
    (o >>= f).result = o.result.bind fun a => (f a).result := by
  rcases o with ⟨events, e | a⟩ <;> rfl

theorem ofExcept_ok_bind (a : α) (f : α → Outcome ε β) : ofExcept (.ok a) >>= f = f a := rfl

@[simp] theorem result_ofExcept (r : Except ε α) : (ofExcept r).result = r := rfl

@[simp] theorem result_emit (e : Event) : (emit e : Outcome ε Unit).result = .ok () := rfl

end Outcome

end Rulebook
