import Rulebook.Json.Reader
import Rulebook.Proofs.JsonLexemes

/-! # Values are read back from their lexemes

Reading the lexemes of a value, wherever a value may come and whatever is open around it, takes up
exactly these lexemes and arrives behind the value (`run_lexemesOnto`).  The statement is about all
values at once, so that the induction can go through the items of an array and the fields of an
object, each of which is followed by a mark.  Hence every value is read back from its lexemes
(`ofLexemes?_lexemes`), and from its text if no lexeme runs into the next (`parse?_compact`).
-/
namespace Rulebook.Json

open Reading

/-- No value begins with a closing bracket. -/
theorem exists_lexemesOnto_cons (v : Json) (rest : List Lexeme) :
    ∃ l ls, v.lexemesOnto rest = l :: ls ∧ l ≠ .closeArray := by
  cases v with
  | atom a => exact ⟨.atom a, rest, by rw [lexemesOnto], by simp⟩
  | array items => exact ⟨.openArray, _, by rw [lexemesOnto], by simp⟩
  | object fields => exact ⟨.openObject, _, by rw [lexemesOnto], by simp⟩

/-- The first item of an array is read like any other. -/
theorem run_firstItem (frames : List Frame) {l : Lexeme} (h : l ≠ .closeArray) (ls : List Lexeme) :
    run ⟨.firstItem, frames⟩ (l :: ls) = run ⟨.value, .array [] :: frames⟩ (l :: ls) := by
  cases l <;> first | rfl | exact absurd rfl h

theorem exists_itemsOnto_cons (v : Json) (vs : List Json) (rest : List Lexeme) :
    ∃ l ls, itemsOnto (v :: vs) rest = l :: ls ∧ l ≠ .closeArray := by
  cases vs with
  | nil => rw [itemsOnto]; exact exists_lexemesOnto_cons v _
  | cons w vs => rw [itemsOnto]; exact exists_lexemesOnto_cons v _

/-- The first key of an object is read like any other. -/
theorem run_firstKey (frames : List Frame) (key : Option String) (ls : List Lexeme) :
    run ⟨.firstKey, frames⟩ (.atom (.text key) :: ls) =
      run ⟨.key [], frames⟩ (.atom (.text key) :: ls) := rfl

theorem exists_fieldsOnto_cons (field : Option String × Json) (fields : List (Option String × Json))
    (rest : List Lexeme) :
    ∃ ls, fieldsOnto (field :: fields) rest = .atom (.text field.1) :: ls := by
  cases fields with
  | nil => exact ⟨_, by rw [fieldsOnto]⟩
  | cons f fs => exact ⟨_, by rw [fieldsOnto]⟩

mutual

/-- **Reading the lexemes of a value** arrives behind the value. -/
theorem run_lexemesOnto (v : Json) (frames : List Frame) (rest : List Lexeme) :
    run ⟨.value, frames⟩ (v.lexemesOnto rest) = run ⟨.after v, frames⟩ rest := by
  match v with
  | .atom a => rw [lexemesOnto]; rfl
  | .array [] => rw [lexemesOnto, itemsOnto]; rfl
  -- behind an opening bracket the machine also allows a closing one, which does not come here
  | .array (item :: items) =>
    obtain ⟨l, ls, hl, hne⟩ := exists_itemsOnto_cons item items (.closeArray :: rest)
    rw [lexemesOnto]
    show run ⟨.firstItem, frames⟩ (itemsOnto (item :: items) (.closeArray :: rest)) = _
    rw [hl, run_firstItem frames hne, ← hl]
    exact run_itemsOnto (item :: items) [] frames rest (List.cons_ne_nil _ _)
  | .object [] => rw [lexemesOnto, fieldsOnto]; rfl
  | .object (field :: fields) =>
    obtain ⟨ls, hl⟩ := exists_fieldsOnto_cons field fields (.closeObject :: rest)
    rw [lexemesOnto]
    show run ⟨.firstKey, frames⟩ (fieldsOnto (field :: fields) (.closeObject :: rest)) = _
    rw [hl, run_firstKey, ← hl]
    exact run_fieldsOnto (field :: fields) [] frames rest (List.cons_ne_nil _ _)

/-- Reading the remaining items of an array arrives behind the array. -/
theorem run_itemsOnto (items before : List Json) (frames : List Frame) (rest : List Lexeme)
    (h : items ≠ []) :
    run ⟨.value, .array before :: frames⟩ (itemsOnto items (.closeArray :: rest)) =
      run ⟨.after (.array (before.reverse ++ items)), frames⟩ rest := by
  match items, h with
  | [v], _ =>
    rw [itemsOnto, run_lexemesOnto v, ← List.reverse_cons]
    rfl
  | v :: w :: vs, _ =>
    rw [itemsOnto, run_lexemesOnto v]
    show run ⟨.value, .array (v :: before) :: frames⟩ (itemsOnto (w :: vs) _) = _
    rw [run_itemsOnto (w :: vs) (v :: before) frames rest (List.cons_ne_nil _ _)]
    simp

/-- Reading the remaining fields of an object arrives behind the object. -/
theorem run_fieldsOnto (fields before : List (Option String × Json)) (frames : List Frame)
    (rest : List Lexeme) (h : fields ≠ []) :
    run ⟨.key before, frames⟩ (fieldsOnto fields (.closeObject :: rest)) =
      run ⟨.after (.object (before.reverse ++ fields)), frames⟩ rest := by
  match fields, h with
  | [(key, v)], _ =>
    rw [fieldsOnto]
    show run ⟨.value, .object before key :: frames⟩ (v.lexemesOnto _) = _
    rw [run_lexemesOnto v, ← List.reverse_cons]
    rfl
  | (key, v) :: f :: fs, _ =>
    rw [fieldsOnto]
    show run ⟨.value, .object before key :: frames⟩ (v.lexemesOnto _) = _
    rw [run_lexemesOnto v]
    show run ⟨.key ((key, v) :: before), frames⟩ (fieldsOnto (f :: fs) _) = _
    rw [run_fieldsOnto (f :: fs) ((key, v) :: before) frames rest (List.cons_ne_nil _ _)]
    simp

end

/-- **Every value is read back from its lexemes.** -/
theorem ofLexemes?_lexemes (v : Json) : ofLexemes? v.lexemes = some v := by
  rw [ofLexemes?, lexemes, start, run_lexemesOnto]
  rfl

/-- A value whose lexemes are all delimited is read back from its text. -/
theorem parse?_compact {v : Json} (h : ∀ l ∈ v.lexemes, l.Delimited) :
    parse? v.compact = some v := by
  rw [parse?, compact, String.toList_ofList, Lexeme.readAll?_flatMap_spelling h, Option.bind_some,
    ofLexemes?_lexemes]

end Rulebook.Json
