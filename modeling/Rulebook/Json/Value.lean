import Rulebook.Json.Lexeme

/-!
# JSON values

The fields of an object keep their order and their repetitions, since readers care for both. Every
value has one list of lexemes, and its compact text is theirs without blanks between.
-/

namespace Rulebook

/-- A JSON value. -/
inductive Json
  | atom (a : Json.Atom)
  | array (items : List Json)
  /-- an object; a key is missing if its surrogate pairs are not whole -/
  | object (fields : List (Option String × Json))
deriving Repr

namespace Json

/-- The null value. -/
def null : Json := .atom .null

/-- Whether a value is null. -/
def isNull : Json → Bool
  | .atom .null => true
  | _ => false

/-- A truth value. -/
def bool (b : Bool) : Json := .atom (.bool b)

/-- An integer. -/
def int (i : Int) : Json := .atom (.number (.ofInt i))

/-- A string. -/
def text (s : String) : Json := .atom (.text (some s))

/-- An object with whole keys. -/
def ofFields (fields : List (String × Json)) : Json :=
  .object (fields.map fun (key, v) => (some key, v))

mutual

/-- The lexemes of a value, put in front of `rest`. -/
def lexemesOnto : Json → List Lexeme → List Lexeme
  | .atom a, rest => .atom a :: rest
  | .array items, rest => .openArray :: itemsOnto items (.closeArray :: rest)
  | .object fields, rest => .openObject :: fieldsOnto fields (.closeObject :: rest)

/-- The lexemes of the items of an array, commas between them. -/
def itemsOnto : List Json → List Lexeme → List Lexeme
  | [], rest => rest
  | [v], rest => lexemesOnto v rest
  | v :: w :: vs, rest => lexemesOnto v (.comma :: itemsOnto (w :: vs) rest)

/-- The lexemes of the fields of an object, commas between them. -/
def fieldsOnto : List (Option String × Json) → List Lexeme → List Lexeme
  | [], rest => rest
  | [(key, v)], rest => .atom (.text key) :: .colon :: lexemesOnto v rest
  | (key, v) :: f :: fs, rest =>
    .atom (.text key) :: .colon :: lexemesOnto v (.comma :: fieldsOnto (f :: fs) rest)

end

/-- The lexemes of a value. -/
def lexemes (v : Json) : List Lexeme := lexemesOnto v []

/-- The text of a value without blanks. -/
def compact (v : Json) : String := String.ofList (v.lexemes.flatMap Lexeme.spelling)

end Json

end Rulebook
