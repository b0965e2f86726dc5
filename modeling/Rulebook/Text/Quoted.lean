import Rulebook.Text.Hidden

/-!
# Quoted texts

Texts are shown between double quotes in a message. The quote and the backslash take a backslash,
the null, tab, line feed and carriage return have short forms, a hidden character is written by its
number, and every other character stands for itself.
-/

namespace Rulebook

/-- A hidden character by its code point, in lower-case hexadecimal digits between braces. -/
def shownByNumber (c : Char) : List Char :=
  ['\\', 'u', '\x7b'] ++ Nat.toDigits 16 c.toNat ++ ['\x7d']

/-- How one character is shown inside a quoted text. -/
def shownChar (c : Char) : List Char :=
  if c = '"' then ['\\', '"']
  else if c = '\\' then ['\\', '\\']
  else if c = '\x00' then ['\\', '0']
  else if c = '\t' then ['\\', 't']
  else if c = '\r' then ['\\', 'r']
  else if c = '\n' then ['\\', 'n']
  else if isHidden c then shownByNumber c
  else [c]

/-- A text between double quotes, as messages show it. -/
def quoted (s : String) : String :=
  String.ofList ('"' :: s.toList.flatMap shownChar ++ ['"'])

end Rulebook
