import Rulebook.Text.Ranges

/-!
# White space

White space is the characters with the Unicode property `White_Space`. Words, comparators and
literals of a rule may be set apart by any run of them, and names read from outside are trimmed of
them at both ends.
-/

namespace Rulebook

/-- The code points of white space. -/
def blankRanges : List (Nat × Nat) := [
  (0x0009, 0x000D), (0x0020, 0x0020), (0x0085, 0x0085), (0x00A0, 0x00A0),
  (0x1680, 0x1680), (0x2000, 0x200A), (0x2028, 0x2029), (0x202F, 0x202F),
  (0x205F, 0x205F), (0x3000, 0x3000)]

/-- Whether a character is white space. -/
def isBlank (c : Char) : Bool := inRanges c.toNat blankRanges

/-- A text without the white space at its two ends. -/
def trimBlank (cs : List Char) : List Char :=
  ((cs.dropWhile isBlank).reverse.dropWhile isBlank).reverse

/-- A string without the white space at its two ends. -/
def trimmed (s : String) : String := String.ofList (trimBlank s.toList)

end Rulebook
