import Rulebook.Json.Value
import Rulebook.Number.Shortest

/-!
# Host values

Host values are what a host program hands over and takes back when it embeds the engine. They are
like JSON values, but integers and floating-point numbers are apart, integers have any size, and a
dict may have keys of any type. A dict keeps the order in which its keys first came.

The texts of a host program are sequences of code points, and halves of surrogate pairs are code
points too. A text with a half in it is not *whole*, also where two halves that make up a pair stand
side by side. JSON does not tell such a pair from its character, so it has a string for some texts
that are not whole.
-/

namespace Rulebook

/-- A text that is not whole. -/
structure BrokenText where
  pieces : List Json.Piece
  fits : pieces.all Json.Piece.fits
  broken : pieces.any Json.Piece.isHalf
deriving DecidableEq, Repr

/-- The string that JSON has for a text that is not whole, missing if a half stands alone. -/
def BrokenText.joined? (t : BrokenText) : Option String :=
  (Json.joinPieces t.pieces).map String.ofList

/-- A value of a host program. -/
inductive HostValue
  | absent
  | bool (b : Bool)
  | int (i : Int)
  | float (x : Binary64)
  | text (s : String)
  | brokenText (t : BrokenText)
  | list (items : List HostValue)
  | dict (entries : List (HostValue × HostValue))
deriving Repr, Inhabited

namespace HostValue

/-- The value under a text among the entries of a dict. -/
def lookup (name : String) : List (HostValue × HostValue) → Option HostValue
  | [] => none
  | (.text s, v) :: rest => if s = name then some v else lookup name rest
  | _ :: rest => lookup name rest

/-- Whether a value is the absent one. -/
def isAbsent : HostValue → Bool
  | .absent => true
  | _ => false

/-- The value under a text among the entries of a dict, unless it is the absent one. -/
def lookupPresent (name : String) (entries : List (HostValue × HostValue)) : Option HostValue :=
  (lookup name entries).filter (!·.isAbsent)

/-- Whether two values are the same text. -/
def sameText : HostValue → HostValue → Bool
  | .text s, .text t => s = t
  | .brokenText s, .brokenText t => s = t
  | _, _ => false

/-- Puts an entry into a dict, in the place of the entry with the same text as key. -/
def putEntry (key v : HostValue) :
    List (HostValue × HostValue) → List (HostValue × HostValue)
  | [] => [(key, v)]
  | (k, w) :: rest =>
    if k.sameText key then (k, v) :: rest else (k, w) :: putEntry key v rest

/-- The dict of a list of entries, of which the last one with the same text as key is in force. -/
def ofEntries (entries : List (HostValue × HostValue)) : HostValue :=
  .dict (entries.foldl (fun done e => putEntry e.1 e.2 done) [])

/-- The dict with texts as keys. -/
def ofFields (fields : List (String × HostValue)) : HostValue :=
  .dict (fields.map fun f => (.text f.1, f.2))

theorem sizeOf_lookup {name : String} {entries : List (HostValue × HostValue)} {v : HostValue}
    (h : lookup name entries = some v) : sizeOf v < sizeOf entries := by
  fun_induction lookup name entries with
  | case1 => cases h
  | case2 w rest =>
    cases h
    simp only [List.cons.sizeOf_spec, Prod.mk.sizeOf_spec]
    omega
  | case3 s w rest _ ih =>
    have := ih h
    simp only [List.cons.sizeOf_spec]
    omega
  | case4 e rest _ ih =>
    have := ih h
    simp only [List.cons.sizeOf_spec]
    omega

/-- Values under two names stand beside one another. -/
theorem sizeOf_lookup_add {name other : String} (hne : name ≠ other)
    {entries : List (HostValue × HostValue)} {v w : HostValue} (hv : lookup name entries = some v)
    (hw : lookup other entries = some w) : sizeOf v + sizeOf w < sizeOf entries := by
  fun_induction lookup name entries with
  | case1 => cases hv
  | case2 u rest =>
    rw [lookup, if_neg hne] at hw
    have := sizeOf_lookup hw
    cases hv
    simp only [List.cons.sizeOf_spec, Prod.mk.sizeOf_spec]
    omega
  | case3 s u rest _ ih =>
    simp only [List.cons.sizeOf_spec, Prod.mk.sizeOf_spec]
    rw [lookup] at hw
    split at hw
    · have := sizeOf_lookup hv
      cases hw
      omega
    · have := ih hv hw
      omega
  | case4 e rest hkey ih =>
    rw [lookup] at hw
    · have := ih hv hw
      simp only [List.cons.sizeOf_spec]
      omega
    · exact hkey

theorem lookup_of_lookupPresent {name : String} {entries : List (HostValue × HostValue)}
    {v : HostValue} (h : lookupPresent name entries = some v) : lookup name entries = some v :=
  (Option.filter_eq_some_iff.1 h).1

/-- The numeral of a finite number. -/
def numeralOf (x : Binary64) : Numeral :=
  if x.magnitude = 0 then ⟨x.isNegative, [Digit.zero], [Digit.zero], none⟩
  else
    let (digits, e) := Binary64.shortest x.magnitude
    ⟨x.isNegative, (Numeral.ofInt digits).whole, [], some e⟩

/-- The string that JSON has for a text, missing if it has none. Nothing if the value is no text. -/
def jsonText? : HostValue → Option (Option String)
  | .text s => some (some s)
  | .brokenText t => some t.joined?
  | _ => none

mutual

/-- The JSON value of a host value. Nothing if it holds a number that is not finite or a key
that is no text. -/
def toJson? : HostValue → Option Json
  | .absent => some .null
  | .bool b => some (.bool b)
  | .int i => some (.int i)
  | .float x => if x.isFinite then some (.atom (.number (numeralOf x))) else none
  | .text s => some (.text s)
  | .brokenText t => some (.atom (.text t.joined?))
  | .list items => (itemsToJson? items).map .array
  | .dict entries => (entriesToJson? entries).map .object

/-- The JSON values of the items of a list. -/
def itemsToJson? : List HostValue → Option (List Json)
  | [] => some []
  | v :: vs => do return (← toJson? v) :: (← itemsToJson? vs)

/-- The JSON fields of the entries of a dict. -/
def entriesToJson? : List (HostValue × HostValue) → Option (List (Option String × Json))
  | [] => some []
  | (key, v) :: rest => do return (← key.jsonText?, ← toJson? v) :: (← entriesToJson? rest)

end

end HostValue

end Rulebook
