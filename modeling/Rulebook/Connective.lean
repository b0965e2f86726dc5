/-!
# Connectives

The two connectives that join conditions. `AND` binds tighter than `OR`.
-/

namespace Rulebook

/-- A connective between two expressions. -/
inductive Connective
  | and
  | or
deriving DecidableEq, Repr, Inhabited

namespace Connective

/-- The word that writes a connective. -/
def word : Connective → String
  | .and => "AND"
  | .or => "OR"

/-- The connective that a word writes, in capitals only. -/
def ofWord? (w : String) : Option Connective :=
  if w = "AND" then some .and else if w = "OR" then some .or else none

/-- The higher the precedence, the tighter a connective binds. -/
def precedence : Connective → Nat
  | .and => 2
  | .or => 1

/-- The truth value of a joined expression. -/
def apply : Connective → Bool → Bool → Bool
  | .and, a, b => a && b
  | .or, a, b => a || b

@[simp] theorem ofWord?_word (c : Connective) : ofWord? c.word = some c := by
  cases c <;> rfl

theorem ofWord?_eq_some_iff {w : String} {c : Connective} : ofWord? w = some c ↔ w = c.word := by
  constructor
  · intro h
    unfold ofWord? at h
    split at h
    · next hw => cases h; exact hw
    · split at h
      · next hw => cases h; exact hw
      · cases h
  · rintro rfl
    exact ofWord?_word c

end Connective

end Rulebook
