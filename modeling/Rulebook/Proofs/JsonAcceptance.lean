import Rulebook.Proofs.JsonGrammar
import Rulebook.Proofs.JsonReading

/-! # Which texts are read as which values

The machine forgets no lexeme: at any moment, what is open and what was read last have the lexemes
read so far (`Reading.lexemes`, `Reading.lexemes_step`).  So a list of lexemes is read as a value
exactly if it is the list of that value (`ofLexemes?_eq_some_iff`).

In such a list no two atoms stand side by side (`apart_lexemes`), which is what the lexer needs to
find the lexemes of a text again.  Hence a text is read as a value exactly if it spells the value
(`parse?_eq_some_iff`), and no text spells two.
-/
namespace Rulebook.Json

/-! ## Lexemes of arrays and objects -/

mutual

theorem lexemesOnto_eq_append (v : Json) (rest : List Lexeme) :
    v.lexemesOnto rest = v.lexemes ++ rest := by
  match v with
  | .atom a => rw [lexemes, lexemesOnto, lexemesOnto]; rfl
  | .array items =>
    rw [lexemes, lexemesOnto, lexemesOnto, itemsOnto_eq_append items,
      itemsOnto_eq_append items [.closeArray]]
    simp
  | .object fields =>
    rw [lexemes, lexemesOnto, lexemesOnto, fieldsOnto_eq_append fields,
      fieldsOnto_eq_append fields [.closeObject]]
    simp

theorem itemsOnto_eq_append (items : List Json) (rest : List Lexeme) :
    itemsOnto items rest = itemsOnto items [] ++ rest := by
  match items with
  | [] => rw [itemsOnto, itemsOnto]; rfl
  | [v] => rw [itemsOnto, itemsOnto, lexemesOnto_eq_append v, lexemesOnto_eq_append v []]; simp
  | v :: w :: vs =>
    rw [itemsOnto, itemsOnto, itemsOnto_eq_append (w :: vs), lexemesOnto_eq_append v,
      lexemesOnto_eq_append v (.comma :: itemsOnto (w :: vs) [])]
    simp

theorem fieldsOnto_eq_append (fields : List (Option String × Json)) (rest : List Lexeme) :
    fieldsOnto fields rest = fieldsOnto fields [] ++ rest := by
  match fields with
  | [] => rw [fieldsOnto, fieldsOnto]; rfl
  | [(key, v)] =>
    rw [fieldsOnto, fieldsOnto, lexemesOnto_eq_append v, lexemesOnto_eq_append v []]
    simp
  | (key, v) :: f :: fs =>
    rw [fieldsOnto, fieldsOnto, fieldsOnto_eq_append (f :: fs), lexemesOnto_eq_append v,
      lexemesOnto_eq_append v (.comma :: fieldsOnto (f :: fs) [])]
    simp

end

/-- The lexemes of items, a comma behind each. -/
def itemsRead (items : List Json) : List Lexeme := items.flatMap fun v => v.lexemes ++ [.comma]

/-- The lexemes of fields, a comma behind each. -/
def fieldsRead (fields : List (Option String × Json)) : List Lexeme :=
  fields.flatMap fun f => .atom (.text f.1) :: .colon :: (f.2.lexemes ++ [.comma])

theorem itemsOnto_concat (items : List Json) (v : Json) (rest : List Lexeme) :
    itemsOnto (items ++ [v]) rest = itemsRead items ++ (v.lexemes ++ rest) := by
  induction items with
  | nil => rw [List.nil_append, itemsOnto, lexemesOnto_eq_append]; rfl
  | cons w items ih =>
    obtain ⟨x, xs, hx⟩ : ∃ x xs, items ++ [v] = x :: xs := List.exists_cons_of_ne_nil (by simp)
    rw [List.cons_append, hx, itemsOnto, ← hx, ih, lexemesOnto_eq_append]
    simp [itemsRead]

theorem fieldsOnto_concat (fields : List (Option String × Json)) (key : Option String) (v : Json)
    (rest : List Lexeme) :
    fieldsOnto (fields ++ [(key, v)]) rest =
      fieldsRead fields ++ .atom (.text key) :: .colon :: (v.lexemes ++ rest) := by
  induction fields with
  | nil => rw [List.nil_append, fieldsOnto, lexemesOnto_eq_append]; rfl
  | cons f fields ih =>
    obtain ⟨x, xs, hx⟩ : ∃ x xs, fields ++ [(key, v)] = x :: xs :=
      List.exists_cons_of_ne_nil (by simp)
    rw [List.cons_append, hx, fieldsOnto, ← hx, ih, lexemesOnto_eq_append]
    simp [fieldsRead]

theorem lexemes_array_concat (items : List Json) (v : Json) :
    (array (items ++ [v])).lexemes =
      .openArray :: (itemsRead items ++ (v.lexemes ++ [.closeArray])) := by
  rw [lexemes, lexemesOnto, itemsOnto_concat]

theorem lexemes_object_concat (fields : List (Option String × Json)) (key : Option String)
    (v : Json) :
    (object (fields ++ [(key, v)])).lexemes =
      .openObject :: (fieldsRead fields ++ .atom (.text key) :: .colon ::
        (v.lexemes ++ [.closeObject])) := by
  rw [lexemes, lexemesOnto, fieldsOnto_concat]

/-! ## No lexeme is forgotten -/

/-- The lexemes of an open array or object that are read. -/
def Frame.lexemes : Frame → List Lexeme
  | .array before => .openArray :: itemsRead before.reverse
  | .object before k => .openObject :: (fieldsRead before.reverse ++ [.atom (.text k), .colon])

/-- The lexemes read since the innermost array or object whose parts are still being counted. -/
def Spot.lexemes : Spot → List Lexeme
  | .value => []
  | .firstItem => [.openArray]
  | .firstKey => [.openObject]
  | .key before => .openObject :: fieldsRead before.reverse
  | .colon before k => .openObject :: (fieldsRead before.reverse ++ [.atom (.text k)])
  | .after v => v.lexemes

namespace Reading

/-- The lexemes read so far. -/
def lexemes (r : Reading) : List Lexeme :=
  r.frames.reverse.flatMap Frame.lexemes ++ r.spot.lexemes

theorem lexemes_cons_frame (spot : Spot) (f : Frame) (frames : List Frame) :
    lexemes ⟨spot, f :: frames⟩ =
      lexemes ⟨.value, frames⟩ ++ (f.lexemes ++ spot.lexemes) := by
  simp [lexemes, Spot.lexemes]

theorem lexemes_beginValue {frames : List Frame} {l : Lexeme} {next : Reading}
    (h : beginValue frames l = some next) :
    next.lexemes = lexemes ⟨.value, frames⟩ ++ [l] := by
  cases l with
  | atom a =>
    obtain rfl := Option.some.inj h
    simp [lexemes, Spot.lexemes, Json.lexemes, lexemesOnto]
  | openArray | openObject =>
    obtain rfl := Option.some.inj h
    simp [lexemes, Spot.lexemes]
  | closeArray | closeObject | comma | colon => cases h

theorem lexemes_afterValue {v : Json} {frames : List Frame} {l : Lexeme} {next : Reading}
    (h : afterValue v frames l = some next) :
    next.lexemes = lexemes ⟨.after v, frames⟩ ++ [l] := by
  unfold afterValue at h
  split at h
  · obtain rfl := Option.some.inj h
    rw [lexemes_cons_frame, lexemes_cons_frame]
    simp [Frame.lexemes, Spot.lexemes, itemsRead]
  · obtain rfl := Option.some.inj h
    rw [lexemes_cons_frame, List.reverse_cons]
    simp [lexemes, Frame.lexemes, Spot.lexemes, lexemes_array_concat]
  · obtain rfl := Option.some.inj h
    rw [lexemes_cons_frame]
    simp [lexemes, Frame.lexemes, Spot.lexemes, fieldsRead]
  · obtain rfl := Option.some.inj h
    rw [lexemes_cons_frame, List.reverse_cons]
    simp [lexemes, Frame.lexemes, Spot.lexemes, lexemes_object_concat]
  · cases h

/-- **No lexeme is forgotten.** -/
theorem lexemes_step {r next : Reading} {l : Lexeme} (h : r.step l = some next) :
    next.lexemes = r.lexemes ++ [l] := by
  obtain ⟨spot, frames⟩ := r
  cases spot with
  | value => exact lexemes_beginValue h
  | after v => exact lexemes_afterValue h
  | firstItem =>
    by_cases hl : l = .closeArray
    · subst hl
      obtain rfl := Option.some.inj h
      simp [lexemes, Spot.lexemes, Json.lexemes, lexemesOnto, itemsOnto]
    · -- the first item is begun inside an array without items
      have hb : beginValue (.array [] :: frames) l = some next := by
        cases l <;> first | exact h | exact absurd rfl hl
      rw [lexemes_beginValue hb, lexemes_cons_frame]
      simp [lexemes, Frame.lexemes, Spot.lexemes, itemsRead]
  | firstKey =>
    match l, h with
    | .closeObject, h =>
      obtain rfl := Option.some.inj h
      simp [lexemes, Spot.lexemes, Json.lexemes, lexemesOnto, fieldsOnto]
    | .atom (.text key), h =>
      obtain rfl := Option.some.inj h
      simp [lexemes, Spot.lexemes, fieldsRead]
  | key before =>
    match l, h with
    | .atom (.text key), h =>
      obtain rfl := Option.some.inj h
      simp [lexemes, Spot.lexemes]
  | colon before key =>
    match l, h with
    | .colon, h =>
      obtain rfl := Option.some.inj h
      simp [lexemes, Frame.lexemes, Spot.lexemes]

theorem lexemes_run {r last : Reading} {ls : List Lexeme} (h : r.run ls = some last) :
    last.lexemes = r.lexemes ++ ls := by
  induction ls generalizing r with
  | nil =>
    obtain rfl := Option.some.inj h
    simp
  | cons l ls ih =>
    obtain ⟨next, hnext, h⟩ := Option.bind_eq_some_iff.mp h
    rw [ih h, lexemes_step hnext]
    simp

end Reading

/-- **Lexemes are read as a value exactly if they are the lexemes of the value.** -/
theorem ofLexemes?_eq_some_iff {ls : List Lexeme} {v : Json} :
    ofLexemes? ls = some v ↔ ls = v.lexemes := by
  constructor
  · intro h
    obtain ⟨⟨spot, frames⟩, hrun, hv⟩ := Option.bind_eq_some_iff.mp h
    have hread := Reading.lexemes_run hrun
    unfold Reading.value? at hv
    split at hv
    · rename_i heq
      obtain rfl := Option.some.inj hv
      obtain ⟨rfl, rfl⟩ := Reading.mk.inj heq
      simpa [Reading.lexemes, Reading.start, Spot.lexemes] using hread.symm
    · cases hv
  · rintro rfl
    exact ofLexemes?_lexemes v

/-! ## Texts -/

namespace Lexeme

/-- A mark stands apart from whatever follows. -/
theorem Apart.cons_mark {ls : List Lexeme} (h : Apart ls) {l : Lexeme} (hl : l.isAtom = false) :
    Apart (l :: ls) :=
  List.IsChain.cons h fun next _ => by simp [hl]

theorem Apart.cons_of_head {ls : List Lexeme} (h : Apart ls)
    (ha : ∀ next ∈ ls.head?, next.isAtom = false) (l : Lexeme) : Apart (l :: ls) :=
  List.IsChain.cons h fun next hnext => by simp [ha next hnext]

end Lexeme

mutual

/-- In front of what stands apart and begins with no atom, a value stands apart. -/
theorem apart_lexemesOnto (v : Json) {rest : List Lexeme} (hr : Lexeme.Apart rest)
    (ha : ∀ l ∈ rest.head?, l.isAtom = false) : Lexeme.Apart (v.lexemesOnto rest) := by
  match v with
  | .atom a =>
    rw [lexemesOnto]
    exact hr.cons_of_head ha (.atom a)
  | .array items =>
    rw [lexemesOnto]
    exact (apart_itemsOnto items (hr.cons_mark rfl) (by simp [Lexeme.isAtom])).cons_mark rfl
  | .object fields =>
    rw [lexemesOnto]
    exact (apart_fieldsOnto fields (hr.cons_mark rfl) (by simp [Lexeme.isAtom])).cons_mark rfl

theorem apart_itemsOnto (items : List Json) {rest : List Lexeme} (hr : Lexeme.Apart rest)
    (ha : ∀ l ∈ rest.head?, l.isAtom = false) : Lexeme.Apart (itemsOnto items rest) := by
  match items with
  | [] => rw [itemsOnto]; exact hr
  | [v] => rw [itemsOnto]; exact apart_lexemesOnto v hr ha
  | v :: w :: vs =>
    rw [itemsOnto]
    exact apart_lexemesOnto v ((apart_itemsOnto (w :: vs) hr ha).cons_mark rfl)
      (by simp [Lexeme.isAtom])

theorem apart_fieldsOnto (fields : List (Option String × Json)) {rest : List Lexeme}
    (hr : Lexeme.Apart rest) (ha : ∀ l ∈ rest.head?, l.isAtom = false) :
    Lexeme.Apart (fieldsOnto fields rest) := by
  match fields with
  | [] => rw [fieldsOnto]; exact hr
  | [(key, v)] =>
    -- a key is followed by its colon
    rw [fieldsOnto]
    exact ((apart_lexemesOnto v hr ha).cons_mark rfl).cons_of_head (by simp [Lexeme.isAtom]) _
  | (key, v) :: f :: fs =>
    rw [fieldsOnto]
    have hrest := (apart_fieldsOnto (f :: fs) hr ha).cons_mark (l := .comma) rfl
    have hv := apart_lexemesOnto v hrest (by simp [Lexeme.isAtom])
    exact (hv.cons_mark rfl).cons_of_head (by simp [Lexeme.isAtom]) _

end

theorem apart_lexemes (v : Json) : Lexeme.Apart v.lexemes :=
  apart_lexemesOnto v .nil (by simp)

/-- **A text is read as a value exactly if it spells the value.** -/
theorem parse?_eq_some_iff {s : String} {v : Json} : parse? s = some v ↔ Spells s.toList v := by
  rw [parse?, Option.bind_eq_some_iff]
  constructor
  · rintro ⟨ls, hls, hv⟩
    rw [ofLexemes?_eq_some_iff.mp hv] at hls
    exact spaced_of_readAll? hls
  · intro h
    exact ⟨v.lexemes, readAll?_of_spaced h (apart_lexemes v), ofLexemes?_lexemes v⟩

end Rulebook.Json
