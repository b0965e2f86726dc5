/-!
# Comparators

The three comparisons that a condition can make.
-/

namespace Rulebook

/-- A comparison of an attribute with a literal. -/
inductive Comparator
  | greater
  | less
  | equal
deriving DecidableEq, Repr, Inhabited

namespace Comparator

/-- The character that writes a comparison. -/
def symbol : Comparator → Char
  | .greater => '>'
  | .less => '<'
  | .equal => '='

/-- The comparison that a character writes. -/
def ofSymbol? (c : Char) : Option Comparator :=
  if c = '>' then some .greater
  else if c = '<' then some .less
  else if c = '=' then some .equal
  else none

/-- The comparison that a word writes, which is a single character. -/
def ofWord? (w : String) : Option Comparator :=
  match w.toList with
  | [c] => ofSymbol? c
  | _ => none

@[simp] theorem ofSymbol?_symbol (o : Comparator) : ofSymbol? o.symbol = some o := by
  cases o <;> rfl

theorem ofSymbol?_eq_some_iff {c : Char} {o : Comparator} :
    ofSymbol? c = some o ↔ c = o.symbol := by
  constructor
  · intro h
    unfold ofSymbol? at h
    split at h
    · next hc => cases h; exact hc
    · split at h
      · next hc => cases h; exact hc
      · split at h
        · next hc => cases h; exact hc
        · cases h
  · rintro rfl
    exact ofSymbol?_symbol o

end Comparator

end Rulebook
