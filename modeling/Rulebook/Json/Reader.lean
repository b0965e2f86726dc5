import Rulebook.Json.Value

/-!
# Reading JSON

A JSON value is read off its lexemes, one lexeme at a time. A *spot* says what may come next, and a
stack of *frames* holds the arrays and objects that are still open. Nesting costs one frame a level,
so there is no limit on it.
-/

namespace Rulebook

namespace Json

/-- An array or object that is still open. -/
inductive Frame
  /-- an array, by the items before the one being read, last first -/
  | array (before : List Json)
  /-- an object, by the fields before the one being read, last first, and the key of that one -/
  | object (before : List (Option String × Json)) (key : Option String)

/-- What may come next. -/
inductive Spot
  /-- a value must come -/
  | value
  /-- a value or the end of the array just opened -/
  | firstItem
  /-- a key or the end of the object just opened -/
  | firstKey
  /-- a key, after the fields given last first -/
  | key (before : List (Option String × Json))
  /-- the colon after a key -/
  | colon (before : List (Option String × Json)) (key : Option String)
  /-- what follows a value: a mark, or nothing if it is outermost -/
  | after (v : Json)

/-- The state of reading: what may come next, and what is open, innermost first. -/
structure Reading where
  spot : Spot
  frames : List Frame

namespace Reading

/-- Nothing is read yet. -/
def start : Reading := ⟨.value, []⟩

/-- Begins a value inside the given frames. -/
def beginValue (frames : List Frame) : Lexeme → Option Reading
  | .atom a => some ⟨.after (.atom a), frames⟩
  | .openArray => some ⟨.firstItem, frames⟩
  | .openObject => some ⟨.firstKey, frames⟩
  | _ => none

/-- Goes on after the value `v`. -/
def afterValue (v : Json) : List Frame → Lexeme → Option Reading
  | .array before :: frames, .comma => some ⟨.value, .array (v :: before) :: frames⟩
  | .array before :: frames, .closeArray => some ⟨.after (.array (v :: before).reverse), frames⟩
  | .object before key :: frames, .comma => some ⟨.key ((key, v) :: before), frames⟩
  | .object before key :: frames, .closeObject =>
    some ⟨.after (.object ((key, v) :: before).reverse), frames⟩
  | _, _ => none

/-- Reads one lexeme. Nothing if it may not come here. -/
def step (r : Reading) (l : Lexeme) : Option Reading :=
  match r.spot, l with
  | .value, l => beginValue r.frames l
  | .firstItem, .closeArray => some ⟨.after (.array []), r.frames⟩
  | .firstItem, l => beginValue (.array [] :: r.frames) l
  | .firstKey, .closeObject => some ⟨.after (.object []), r.frames⟩
  | .firstKey, .atom (.text key) => some ⟨.colon [] key, r.frames⟩
  | .key before, .atom (.text key) => some ⟨.colon before key, r.frames⟩
  | .colon before key, .colon => some ⟨.value, .object before key :: r.frames⟩
  | .after v, l => afterValue v r.frames l
  | _, _ => none

/-- Reads lexemes one after the other. -/
def run (r : Reading) : List Lexeme → Option Reading
  | [] => some r
  | l :: ls => (r.step l).bind (run · ls)

/-- The value that is read when nothing is left open. -/
def value? : Reading → Option Json
  | ⟨.after v, []⟩ => some v
  | _ => none

end Reading

/-- The value with the given lexemes. -/
def ofLexemes? (ls : List Lexeme) : Option Json := (Reading.start.run ls).bind Reading.value?

/-- The value that a text spells, blanks allowed between lexemes. -/
def parse? (s : String) : Option Json := (Lexeme.readAll? s.toList).bind ofLexemes?

/-- Whether a text is a JSON value all of whose strings are whole and whose numbers are finite. -/
def isExactText (s : String) : Bool :=
  match Lexeme.readAll? s.toList with
  | some ls => ls.all Lexeme.isExact && (ofLexemes? ls).isSome
  | none => false

/-- The nesting of a value: none for an atom, and one level more than their deepest part for arrays
and objects. -/
def nesting : Json → Nat
  | .atom _ => 0
  | .array items => 1 + nestingOfItems items
  | .object fields => 1 + nestingOfFields fields
where
  /-- The nesting of the deepest item. -/
  nestingOfItems : List Json → Nat
    | [] => 0
    | v :: vs => max v.nesting (nestingOfItems vs)
  /-- The nesting of the deepest field. -/
  nestingOfFields : List (Option String × Json) → Nat
    | [] => 0
    | (_, v) :: fs => max v.nesting (nestingOfFields fs)

end Json

end Rulebook
