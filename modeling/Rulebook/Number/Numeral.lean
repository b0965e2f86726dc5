import Rulebook.Number.Binary64

/-!
# Numerals

Numerals are the decimal spellings of numbers, read into their parts. A numeral has a sign, digits
before and after the point, and perhaps an exponent. Two grammars are read here. The free one is
that of the literals in a rule: a plus sign may stand in front, and digits may be missing on one
side of the point. The strict one is that of JSON: no plus sign, no idle leading zero, digits on
both sides of a point.

`Numeral.nearest` is the double-precision number nearest to the exact value.
-/

namespace Rulebook

/-- A decimal digit. -/
abbrev Digit := Fin 10

/-- The digit zero. -/
def Digit.zero : Digit := 0

/-- The digit that a character spells. -/
def Digit.ofChar? (c : Char) : Option Digit :=
  if h : '0' ≤ c ∧ c.toNat - 48 < 10 then some ⟨c.toNat - 48, h.2⟩ else none

/-- The character that spells a digit. -/
def Digit.toChar (d : Digit) : Char := Char.ofNat (48 + d.val)

/-- The number that digits spell, the most significant first, after the value already read. -/
def Digit.natOf (before : Nat) (ds : List Digit) : Nat :=
  ds.foldl (fun n d => 10 * n + d.val) before

/-- The digits that a text begins with, and the rest of it. -/
def readDigits : List Char → List Digit × List Char
  | [] => ([], [])
  | c :: cs =>
    match Digit.ofChar? c with
    | none => ([], c :: cs)
    | some d => (d :: (readDigits cs).1, (readDigits cs).2)

theorem length_readDigits (cs : List Char) : (readDigits cs).2.length ≤ cs.length := by
  induction cs with
  | nil => simp [readDigits]
  | cons c cs ih =>
    rw [readDigits]
    split
    · exact Nat.le_refl _
    · exact Nat.le_succ_of_le ih

theorem length_readDigits_lt {cs : List Char} (h : (readDigits cs).1 ≠ []) :
    (readDigits cs).2.length < cs.length := by
  cases cs with
  | nil => simp [readDigits] at h
  | cons c cs =>
    rw [readDigits] at h ⊢
    split
    · simp_all
    · exact Nat.lt_succ_of_le (length_readDigits cs)

/-- The number that decimal digits spell, perhaps after a plus sign. -/
def readNatural? (cs : List Char) : Option Nat :=
  let digits := readDigits (if cs.head? = some '+' then cs.tail else cs)
  if digits.1 = [] ∨ digits.2 ≠ [] then none else some (Digit.natOf 0 digits.1)

/-- A decimal spelling in its parts. -/
structure Numeral where
  /-- whether a minus sign stands in front -/
  negative : Bool
  /-- the digits before the point -/
  whole : List Digit
  /-- the digits after the point -/
  fraction : List Digit
  /-- the power of ten that follows, if any -/
  exponent : Option Int
deriving DecidableEq, Repr

namespace Numeral

/-- The digits read as one natural number, the point left out. -/
def mantissa (n : Numeral) : Nat := Digit.natOf (Digit.natOf 0 n.whole) n.fraction

/-- The power of ten that the mantissa is to be scaled by. -/
def scale (n : Numeral) : Int := n.exponent.getD 0 - n.fraction.length

/-- How many digits the mantissa has. -/
def mantissaLength (n : Numeral) : Nat := ((n.whole ++ n.fraction).dropWhile (· = 0)).length

/-- The magnitude nearest to `mantissa * 10 ^ scale`. Outside the range of the finite numbers the
length of the mantissa decides, so that no power larger than the spelling warrants is computed. -/
def nearestMagnitude (n : Numeral) : Nat :=
  if n.mantissa = 0 then 0
  else if 310 < n.mantissaLength + n.scale then Binary64.infiniteMagnitude
  else if n.mantissaLength + n.scale < -330 then 0
  else if 0 ≤ n.scale then Binary64.nearestMagnitude (n.mantissa * Nat.pow 10 n.scale.toNat) 1
  else Binary64.nearestMagnitude n.mantissa (Nat.pow 10 n.scale.natAbs)

/-- The double-precision number nearest to the numeral's exact value. -/
def nearest (n : Numeral) : Binary64 := Binary64.ofMagnitude n.negative n.nearestMagnitude

/-- The numeral of an integer. -/
def ofInt (i : Int) : Numeral where
  negative := i < 0
  whole := (Nat.toDigits 10 i.natAbs).filterMap Digit.ofChar?
  fraction := []
  exponent := none

/-- Takes a sign off the front of a text: whether it is a minus sign, and the rest. A plus sign is
taken only where `plus` allows it. -/
def readSign (plus : Bool) : List Char → Bool × List Char
  | '-' :: cs => (true, cs)
  | '+' :: cs => (false, if plus then cs else '+' :: cs)
  | cs => (false, cs)

/-- The exponent that a text begins with, if it begins with one, and the rest; nothing if the
letter of an exponent is not followed by digits. -/
def readExponent : List Char → Option (Option Int × List Char)
  | [] => some (none, [])
  | c :: cs =>
    if c = 'e' ∨ c = 'E' then
      let sign := readSign true cs
      let digits := readDigits sign.2
      let size : Int := Digit.natOf 0 digits.1
      if digits.1 = [] then none else some (some (if sign.1 then -size else size), digits.2)
    else some (none, c :: cs)

/-- The digits after a point that a text begins with, if it begins with a point, and the rest. -/
def readFraction : List Char → List Digit × List Char
  | '.' :: cs => readDigits cs
  | cs => ([], cs)

/-- Reads a whole text by the free grammar. -/
def ofLiteral? (cs : List Char) : Option Numeral :=
  let sign := readSign true cs
  let whole := readDigits sign.2
  let fraction := readFraction whole.2
  if whole.1 = [] ∧ fraction.1 = [] then none
  else
    match readExponent fraction.2 with
    | some (exponent, []) => some ⟨sign.1, whole.1, fraction.1, exponent⟩
    | _ => none

/-- Reads a numeral by the strict grammar off the front of a text. -/
def readStrict (cs : List Char) : Option (Numeral × List Char) :=
  let sign := readSign false cs
  let whole := readDigits sign.2
  let fraction := readFraction whole.2
  if whole.1 = [] ∨ whole.1.head? = some 0 ∧ whole.1.tail ≠ [] then none
  else if whole.2.head? = some '.' ∧ fraction.1 = [] then none
  else (readExponent fraction.2).map fun e => (⟨sign.1, whole.1, fraction.1, e.1⟩, e.2)

theorem length_readSign (plus : Bool) (cs : List Char) :
    (readSign plus cs).2.length ≤ cs.length := by
  unfold readSign
  split <;> (try split) <;> simp

theorem length_readFraction (cs : List Char) : (readFraction cs).2.length ≤ cs.length := by
  unfold readFraction
  split
  · exact Nat.le_succ_of_le (length_readDigits _)
  · exact Nat.le_refl _

theorem length_readExponent {cs rest : List Char} {e : Option Int}
    (h : readExponent cs = some (e, rest)) : rest.length ≤ cs.length := by
  cases cs with
  | nil => simp_all [readExponent]
  | cons c cs =>
    have hd := length_readDigits (readSign true cs).2
    have hs := length_readSign true cs
    simp only [readExponent] at h
    split at h
    · split at h
      · simp at h
      · obtain ⟨-, rfl⟩ := Prod.mk.inj (Option.some.inj h)
        simp only [List.length_cons]
        omega
    · obtain ⟨-, rfl⟩ := Prod.mk.inj (Option.some.inj h)
      exact Nat.le_refl _

/-- A numeral takes at least one character. -/
theorem length_readStrict {cs rest : List Char} {n : Numeral}
    (h : readStrict cs = some (n, rest)) : rest.length < cs.length := by
  have hs := length_readSign false cs
  have hf := length_readFraction (readDigits (readSign false cs).2).2
  simp only [readStrict] at h
  split at h
  · simp at h
  · rename_i hw
    split at h
    · simp at h
    · obtain ⟨e, he, h⟩ := Option.map_eq_some_iff.1 h
      obtain ⟨-, rfl⟩ := Prod.mk.inj h
      have hd := length_readDigits_lt fun h => hw (.inl h)
      have := length_readExponent he
      omega

/-- The spelling of a numeral. -/
def spelling (n : Numeral) : List Char :=
  (if n.negative then ['-'] else []) ++ n.whole.map Digit.toChar ++
    (if n.fraction = [] then [] else '.' :: n.fraction.map Digit.toChar) ++
    (match n.exponent with
      | none => []
      | some e => 'e' :: (if e < 0 then ['-'] else []) ++ Nat.toDigits 10 e.natAbs)

end Numeral

end Rulebook
