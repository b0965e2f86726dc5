import Rulebook.Number.Numeral

/-!
# Places in messages

Places stand at the end of a message, written ` at line L column C`. A message about a text that was
read may name the place of its fault, and what it says is the message without that place. A message
that quotes the text may happen to end like a place: such an end is taken for the place of the
fault, and is lost with it.

At most one end of a message is a place, since a place holds the words `at line` only once.
-/

namespace Rulebook

/-- A line and a column. -/
structure Place where
  line : Nat
  column : Nat
deriving DecidableEq, Repr

namespace Place

/-- One more than the largest number of a line or column. -/
def bound : Nat := Nat.pow 2 64

/-- Whether line and column are small enough to be those of a place in a text. -/
def fits (p : Place) : Bool := p.line < bound && p.column < bound

/-- The number that follows the given words at the beginning of a text, and the text after it. -/
def readNumber? (words : String) (cs : List Char) : Option (Nat × List Char) := do
  let cs ← words.toList.isPrefixOf? cs
  let digits := readDigits cs
  if digits.1 = [] then none else some (Digit.natOf 0 digits.1, digits.2)

/-- The place that a whole text is. -/
def ofText? (cs : List Char) : Option Place := do
  let (line, cs) ← readNumber? " at line " cs
  let (column, cs) ← readNumber? " column " cs
  if cs = [] then some ⟨line, column⟩ else none

/-- What a message says, and the place at its end, if there is one. -/
def split : List Char → List Char × Option Place
  | [] => ([], none)
  | c :: cs =>
    match ofText? (c :: cs) with
    | some p => ([], some p)
    | none => (c :: (split cs).1, (split cs).2)

end Place

/-- A message that gets a place of its own: an end like a place is left out if it fits. -/
def withoutOwnPlace (message : String) : String :=
  match Place.split message.toList with
  | (said, some p) => if p.fits then String.ofList said else message
  | (_, none) => message

/-- A message that gets no place of its own: the end like a place is left out. Line zero is no
place, so behind a place in line zero another one is left out. -/
def withoutPlace (message : String) : String :=
  match Place.split message.toList with
  | (said, some p) =>
    String.ofList (if p.fits && p.line = 0 then (Place.split said).1 else said)
  | (_, none) => message

end Rulebook
