import Rulebook.Clause
import Rulebook.Error

/-!
# Tokens

The tokens of a rule are parentheses, connectives and whole conditions. A rule is gone over once
from the left. A parenthesis is a token wherever it stands outside a condition. A word is a
connective if it is `AND` or `OR` in full, and otherwise the beginning of a condition if a
comparator and a literal follow it. Everything else is passed over, a word that begins no condition
as a whole, so that no condition begins inside a word.
-/

namespace Rulebook

/-- A token of a rule. -/
inductive Token
  | openParen
  | closeParen
  | connective (c : Connective)
  /-- a condition, by its text -/
  | condition (text : String)
deriving DecidableEq, Repr

namespace Token

theorem length_dropWhile_le (p : Char → Bool) (cs : List Char) :
    (cs.dropWhile p).length ≤ cs.length :=
  (List.dropWhile_suffix p).length_le

/-- The tokens of a text, in their order. -/
def scan (cs : List Char) : List Token :=
  match cs with
  | [] => []
  | c :: tail =>
    if c = '(' then .openParen :: scan tail
    else if c = ')' then .closeParen :: scan tail
    else if isWordChar c then
      match Connective.ofWord? (String.ofList ((c :: tail).takeWhile isWordChar)) with
      | some k => .connective k :: scan (tail.dropWhile isWordChar)
      | none =>
        match h : Clause.read? (c :: tail) with
        | some (clause, rest) =>
          have := Clause.length_read? h
          .condition (String.ofList clause.spelling) :: scan rest
        | none => scan (tail.dropWhile isWordChar)
    else scan tail
termination_by cs.length
decreasing_by
  · exact Nat.lt_succ_self _
  · exact Nat.lt_succ_self _
  · exact Nat.lt_succ_of_le (length_dropWhile_le _ _)
  · exact this
  · exact Nat.lt_succ_of_le (length_dropWhile_le _ _)
  · exact Nat.lt_succ_self _

/-- The tokens of a rule, of which there is at least one. -/
def tokenize (rule : String) : Except RuleError (List Token) :=
  match scan rule.toList with
  | [] => .error (.noTokens rule)
  | ts => .ok ts

end Token

end Rulebook
