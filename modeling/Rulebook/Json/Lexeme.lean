import Rulebook.Json.Escape
import Rulebook.Number.Stepwise

/-!
# The lexemes of JSON

The lexemes are brackets, marks and the values that hold no others. `Lexeme.readAll?` splits a
text into its lexemes and drops the blanks between them. A lexeme may be well written and still
name nothing, when a string breaks a surrogate pair or a number is too large; such a lexeme is not
*exact*.
-/

namespace Rulebook

namespace Json

/-- A value that holds no other values. -/
inductive Atom
  | null
  | bool (b : Bool)
  | number (n : Numeral)
  /-- a string, missing if its surrogate pairs are not whole -/
  | text (s : Option String)
deriving DecidableEq, Repr

/-- A smallest unit of a JSON text. -/
inductive Lexeme
  | openArray
  | closeArray
  | openObject
  | closeObject
  | comma
  | colon
  | atom (a : Atom)
deriving DecidableEq, Repr

/-- The blanks that may stand between lexemes. -/
def isSpace (c : Char) : Bool := c = ' ' || c = '\n' || c = '\t' || c = '\r'

namespace Atom

/-- Whether the atom names a value: a string that is whole, a number that is finite. -/
def isExact : Atom → Bool
  | .number n => n.value?.isSome
  | .text s => s.isSome
  | _ => true

/-- How an atom is written. A string that is not whole is written as a lone half of a pair. -/
def spelling : Atom → List Char
  | .null => "null".toList
  | .bool true => "true".toList
  | .bool false => "false".toList
  | .number n => n.spelling
  | .text (some s) => escape s
  | .text none => "\"\\ud800\"".toList

end Atom

namespace Lexeme

/-- Whether the lexeme is a mark or an atom that names a value. -/
def isExact : Lexeme → Bool
  | .atom a => a.isExact
  | _ => true

/-- How a lexeme is written. -/
def spelling : Lexeme → List Char
  | .openArray => ['[']
  | .closeArray => [']']
  | .openObject => ['\x7b']
  | .closeObject => ['\x7d']
  | .comma => [',']
  | .colon => [':']
  | .atom a => a.spelling

/-- The lexeme that a text begins with, and the text after it. -/
def read? : List Char → Option (Lexeme × List Char)
  | '[' :: cs => some (.openArray, cs)
  | ']' :: cs => some (.closeArray, cs)
  | '\x7b' :: cs => some (.openObject, cs)
  | '\x7d' :: cs => some (.closeObject, cs)
  | ',' :: cs => some (.comma, cs)
  | ':' :: cs => some (.colon, cs)
  | '"' :: cs => (readString cs).map fun (s, cs) => (.atom (.text s), cs)
  | 'n' :: 'u' :: 'l' :: 'l' :: cs => some (.atom .null, cs)
  | 't' :: 'r' :: 'u' :: 'e' :: cs => some (.atom (.bool true), cs)
  | 'f' :: 'a' :: 'l' :: 's' :: 'e' :: cs => some (.atom (.bool false), cs)
  | cs => (Numeral.readStrict cs).map fun (n, cs) => (.atom (.number n), cs)

theorem length_read? {cs rest : List Char} {l : Lexeme} (h : read? cs = some (l, rest)) :
    rest.length < cs.length := by
  unfold read? at h
  split at h
  case h_7 =>
    obtain ⟨⟨s, r⟩, hr, h⟩ := Option.map_eq_some_iff.1 h
    obtain ⟨-, rfl⟩ := Prod.mk.inj h
    exact Nat.lt_succ_of_lt (length_readString hr)
  case h_11 =>
    obtain ⟨⟨n, r⟩, hr, h⟩ := Option.map_eq_some_iff.1 h
    obtain ⟨-, rfl⟩ := Prod.mk.inj h
    exact Numeral.length_readStrict hr
  all_goals
    obtain ⟨-, rfl⟩ := Prod.mk.inj (Option.some.inj h)
    simp only [List.length_cons]
    omega

/-- The lexemes of a whole text, the blanks between them left out. -/
def readAll? (cs : List Char) : Option (List Lexeme) :=
  match cs with
  | [] => some []
  | c :: tail =>
    if isSpace c then readAll? tail
    else
      match h : read? (c :: tail) with
      | none => none
      | some (l, rest) =>
        have := length_read? h
        (readAll? rest).map (l :: ·)
termination_by cs.length
decreasing_by
  · exact Nat.lt_succ_self _
  · exact this

end Lexeme

end Json

end Rulebook
