import Rulebook.Comparator
import Rulebook.Text.Blank
import Rulebook.Text.Word

/-!
# Clauses

Clauses are conditions as they are written. A clause is a word, a comparator and a literal, with any
white space between the three. The literal stands in single or in double quotes, and then holds
anything but that quote, or it is a run of word characters and points, perhaps after a minus sign.

`Clause.read?` takes a clause off the front of a text. Each part takes as much as it can, and since
no character can belong to two neighbouring parts there is never a second way to split a text: what
is read is the spelling of the clause, `Clause.spelling_append`.
-/

namespace Rulebook

/-- A condition in its written parts. -/
structure Clause where
  /-- the name of the attribute -/
  attr : List Char
  /-- the white space in front of the comparator -/
  gapBefore : List Char
  comparator : Comparator
  /-- the white space after the comparator -/
  gapAfter : List Char
  /-- the literal, with its quotes if it has any -/
  literal : List Char
deriving DecidableEq, Repr

namespace Clause

/-- The clause as it is written. -/
def spelling (c : Clause) : List Char :=
  c.attr ++ c.gapBefore ++ c.comparator.symbol :: (c.gapAfter ++ c.literal)

/-- Whether a character can stand in a literal without quotes. -/
def isBareChar (c : Char) : Bool := isWordChar c || c = '.'

/-- The literal up to the next quote `q`, whose opening quote is already taken. -/
def readQuoted (q : Char) (cs : List Char) : Option (List Char × List Char) :=
  match cs.dropWhile (· != q) with
  | [] => none
  | _ :: rest => some (q :: cs.takeWhile (· != q) ++ [q], rest)

/-- The literal without quotes that a text begins with, to be put after `sign`. -/
def readBare (sign cs : List Char) : Option (List Char × List Char) :=
  if cs.takeWhile isBareChar = [] then none
  else some (sign ++ cs.takeWhile isBareChar, cs.dropWhile isBareChar)

/-- The literal that a text begins with, and the rest. -/
def readLiteral : List Char → Option (List Char × List Char)
  | [] => none
  | c :: cs =>
    if c = '\'' ∨ c = '"' then readQuoted c cs
    else if c = '-' then readBare ['-'] cs
    else readBare [] (c :: cs)

/-- The comparator, the gap and the literal that follow `attr` and `gap`. -/
def readComparison (attr gap : List Char) : List Char → Option (Clause × List Char)
  | [] => none
  | c :: cs => do
    let o ← Comparator.ofSymbol? c
    let (literal, rest) ← readLiteral (cs.dropWhile isBlank)
    return (⟨attr, gap, o, cs.takeWhile isBlank, literal⟩, rest)

/-- The clause that a text begins with, and the rest. -/
def read? (cs : List Char) : Option (Clause × List Char) :=
  let attr := cs.takeWhile isWordChar
  let rest := cs.dropWhile isWordChar
  if attr = [] then none
  else readComparison attr (rest.takeWhile isBlank) (rest.dropWhile isBlank)

theorem readQuoted_append {q : Char} {cs literal rest : List Char}
    (h : readQuoted q cs = some (literal, rest)) : literal ++ rest = q :: cs := by
  unfold readQuoted at h
  split at h
  · cases h
  · next d rest' hd =>
    obtain ⟨rfl, rfl⟩ := Prod.mk.inj (Option.some.inj h)
    have hq : d = q := by
      have := List.head?_dropWhile_not (· != q) cs
      simpa [hd] using this
    subst hq
    have := List.takeWhile_append_dropWhile (p := (· != d)) (l := cs)
    rw [hd] at this
    simp only [List.cons_append, List.append_assoc, List.nil_append, this]

theorem readBare_append {sign cs literal rest : List Char}
    (h : readBare sign cs = some (literal, rest)) : literal ++ rest = sign ++ cs := by
  unfold readBare at h
  split at h
  · cases h
  · obtain ⟨rfl, rfl⟩ := Prod.mk.inj (Option.some.inj h)
    rw [List.append_assoc, List.takeWhile_append_dropWhile]

theorem readLiteral_append {cs literal rest : List Char}
    (h : readLiteral cs = some (literal, rest)) : literal ++ rest = cs := by
  unfold readLiteral at h
  split at h
  · cases h
  · split at h
    · exact readQuoted_append h
    · split at h
      · next hc =>
        subst hc
        exact readBare_append h
      · exact readBare_append h

/-- What is read off a text is the clause's spelling. -/
theorem spelling_append {cs rest : List Char} {c : Clause} (h : read? cs = some (c, rest)) :
    c.spelling ++ rest = cs := by
  simp only [read?] at h
  split at h
  · cases h
  · have h₁ := List.takeWhile_append_dropWhile (p := isWordChar) (l := cs)
    have h₂ := List.takeWhile_append_dropWhile (p := isBlank) (l := cs.dropWhile isWordChar)
    unfold readComparison at h
    split at h
    · cases h
    · next d ds hd =>
      simp only [bind, Option.bind_eq_some_iff] at h
      obtain ⟨o, ho, ⟨literal, rest'⟩, hl, h⟩ := h
      obtain ⟨rfl, rfl⟩ := Prod.mk.inj (Option.some.inj h)
      have h₃ := List.takeWhile_append_dropWhile (p := isBlank) (l := ds)
      have h₄ := readLiteral_append hl
      have hc := Comparator.ofSymbol?_eq_some_iff.1 ho
      rw [hd] at h₂
      simp only [spelling, List.append_assoc, List.cons_append, h₄, h₃, ← hc, h₂, h₁]

theorem spelling_ne_nil (c : Clause) : c.spelling ≠ [] := by
  simp [spelling]

/-- A clause takes at least one character. -/
theorem length_read? {cs rest : List Char} {c : Clause} (h : read? cs = some (c, rest)) :
    rest.length < cs.length := by
  have hl := congrArg List.length (spelling_append h)
  have := List.length_pos_iff.2 c.spelling_ne_nil
  rw [List.length_append] at hl
  omega

end Clause

end Rulebook
