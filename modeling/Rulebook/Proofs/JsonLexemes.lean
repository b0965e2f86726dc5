import Rulebook.Json.Lexeme

/-! # Lexemes are read back from their spellings

A string is written one character at a time and read back one character or escape at a time, so
reading undoes writing from the front of any text (`readPieces_escapeChar_append`), and a written
string is read up to its own closing quote, whatever it holds (`readString_escaped`).

A lexeme is *delimited* when it ends where its spelling ends, whatever follows.  Numbers are not,
but all else that is written is.  A list of delimited lexemes, written without blanks between them,
is read back as it is (`Lexeme.readAll?_flatMap_spelling`).
-/
namespace Rulebook.Json

/-! ## Strings -/

/-- The two digits that write a control character name it. -/
theorem hexUnit?_hexDigit :
    ∀ n < 0x20, hexUnit? '0' '0' (hexDigit (n / 16)) (hexDigit (n % 16)) = some n := by
  decide

/-- Reading a character that is written by its number. -/
theorem readPieces_control {c : Char} (h : c.toNat < 0x20) (rest : List Char) :
    readPieces ('\\' :: 'u' :: '0' :: '0' :: hexDigit (c.toNat / 16) ::
        hexDigit (c.toNat % 16) :: rest) =
      (readPieces rest).map fun p => (.char c :: p.1, p.2) := by
  have hhigh : ¬ (0xD800 ≤ c.toNat ∧ c.toNat < 0xDC00) := by omega
  have hlow : ¬ (0xDC00 ≤ c.toNat ∧ c.toNat < 0xE000) := by omega
  have hpiece : Piece.ofUnit c.toNat = .char c := by
    rw [Piece.ofUnit, if_neg hhigh, if_neg hlow, Char.ofNat_toNat]
  rw [readPieces, hexUnit?_hexDigit c.toNat h, Option.bind_eq_bind, Option.bind_some, hpiece]
  cases readPieces rest <;> rfl

/-- Reading a character that is written by a letter. -/
theorem readPieces_letter {x c : Char} (hx : x ≠ 'u') (h : letterEscape? x = some c)
    (rest : List Char) :
    readPieces ('\\' :: x :: rest) = (readPieces rest).map fun p => (.char c :: p.1, p.2) := by
  rw [readPieces, h, Option.bind_eq_bind, Option.bind_some]
  · cases readPieces rest <;> rfl
  · exact fun _ _ _ _ _ hu _ => hx hu

/-- Reading a character that stands for itself. -/
theorem readPieces_plain {c : Char} (hq : c ≠ '"') (hb : c ≠ '\\') (hc : ¬ c.toNat < 0x20)
    (rest : List Char) :
    readPieces (c :: rest) = (readPieces rest).map fun p => (.char c :: p.1, p.2) := by
  have hplain : ¬ (c.toNat < 0x20 ∨ c = '\\') := not_or.mpr ⟨hc, hb⟩
  rw [readPieces, if_neg hplain]
  · cases readPieces rest <;> rfl
  · exact hq
  · exact fun _ _ _ _ _ h _ => hb h
  · exact fun _ _ h _ => hb h

/-- **Reading undoes the writing of one character**, whatever follows. -/
theorem readPieces_escapeChar_append (c : Char) (rest : List Char) :
    readPieces (escapeChar c ++ rest) = (readPieces rest).map fun p => (.char c :: p.1, p.2) := by
  -- seven characters are written by a letter, the quote and the backslash among them
  by_cases hq : c = '"'
  · subst hq
    exact readPieces_letter (by decide) (by decide) rest
  by_cases hb : c = '\\'
  · subst hb
    exact readPieces_letter (by decide) (by decide) rest
  by_cases hbs : c = '\x08'
  · subst hbs
    exact readPieces_letter (by decide) (by decide) rest
  by_cases hff : c = '\x0c'
  · subst hff
    exact readPieces_letter (by decide) (by decide) rest
  by_cases hn : c = '\n'
  · subst hn
    exact readPieces_letter (by decide) (by decide) rest
  by_cases hr : c = '\r'
  · subst hr
    exact readPieces_letter (by decide) (by decide) rest
  by_cases ht : c = '\t'
  · subst ht
    exact readPieces_letter (by decide) (by decide) rest
  rw [escapeChar, if_neg hq, if_neg hb, if_neg hbs, if_neg hff, if_neg hn, if_neg hr, if_neg ht]
  by_cases hc : c.toNat < 0x20
  · rw [if_pos hc]
    exact readPieces_control hc rest
  · rw [if_neg hc]
    exact readPieces_plain hq hb hc rest

theorem readPieces_escaped (cs rest : List Char) :
    readPieces (cs.flatMap escapeChar ++ '"' :: rest) = some (cs.map .char, rest) := by
  induction cs with
  | nil => rw [List.flatMap_nil, List.nil_append, readPieces]; rfl
  | cons c cs ih =>
    rw [List.flatMap_cons, List.append_assoc, readPieces_escapeChar_append, ih]
    rfl

theorem joinPieces_map_char (cs : List Char) : joinPieces (cs.map .char) = some cs := by
  induction cs with
  | nil => rfl
  | cons c cs ih =>
    rw [List.map_cons, joinPieces, ih]
    rfl

/-- **A written string is read back, up to its closing quote.** -/
theorem readString_escaped (s : String) (rest : List Char) :
    readString (s.toList.flatMap escapeChar ++ '"' :: rest) = some (some s, rest) := by
  simp only [readString, readPieces_escaped, Option.map_some, joinPieces_map_char,
    String.ofList_toList]

/-! ## Lexemes -/

namespace Lexeme

/-- The lexeme ends where its spelling ends, whatever follows.  More digits would prolong a number,
and a string that is not whole has no spelling of its own. -/
def Delimited : Lexeme → Prop
  | .atom (.number _) => False
  | .atom (.text none) => False
  | _ => True

theorem spelling_text_append (s : String) (rest : List Char) :
    (atom (.text (some s))).spelling ++ rest =
      '"' :: (s.toList.flatMap escapeChar ++ '"' :: rest) := by
  show '"' :: s.toList.flatMap escapeChar ++ ['"'] ++ rest = _
  rw [List.append_assoc]
  rfl

theorem read?_quote (cs : List Char) :
    read? ('"' :: cs) = (readString cs).map fun p => (.atom (.text p.1), p.2) := rfl

theorem read?_spelling_append {l : Lexeme} (h : l.Delimited) (rest : List Char) :
    read? (l.spelling ++ rest) = some (l, rest) := by
  match l, h with
  | .openArray, _ | .closeArray, _ | .openObject, _ | .closeObject, _ | .comma, _ | .colon, _ => rfl
  | .atom .null, _ | .atom (.bool true), _ | .atom (.bool false), _ => rfl
  | .atom (.text (some s)), _ =>
    rw [spelling_text_append, read?_quote, readString_escaped]
    rfl

/-- A lexeme does not begin with a blank. -/
theorem exists_spelling_cons {l : Lexeme} (h : l.Delimited) :
    ∃ c cs, l.spelling = c :: cs ∧ isSpace c = false := by
  match l, h with
  | .openArray, _ | .closeArray, _ | .openObject, _ | .closeObject, _ | .comma, _ | .colon, _ =>
    exact ⟨_, _, rfl, by decide⟩
  | .atom .null, _ | .atom (.bool true), _ | .atom (.bool false), _ =>
    exact ⟨_, _, rfl, by decide⟩
  | .atom (.text (some s)), _ => exact ⟨'"', _, rfl, by decide⟩

/-- A lexeme that is read off the front of a text is the first that the lexer finds in it, if it
does not begin with a blank. -/
theorem readAll?_append_of_read? {s rest : List Char} {l : Lexeme}
    (hs : ∃ c cs, s = c :: cs ∧ isSpace c = false) (h : read? (s ++ rest) = some (l, rest)) :
    readAll? (s ++ rest) = (readAll? rest).map (l :: ·) := by
  obtain ⟨c, cs, rfl, hspace⟩ := hs
  rw [List.cons_append] at h ⊢
  rw [readAll?, if_neg (by simp [hspace])]
  split
  · rename_i hnone
    rw [h] at hnone
    cases hnone
  · rename_i l' rest' hsome
    rw [h] at hsome
    obtain ⟨rfl, rfl⟩ := Prod.mk.inj (Option.some.inj hsome)
    rfl

/-- **Delimited lexemes are read back from their spellings.** -/
theorem readAll?_flatMap_spelling {ls : List Lexeme} (h : ∀ l ∈ ls, l.Delimited) :
    readAll? (ls.flatMap spelling) = some ls := by
  induction ls with
  | nil => rw [List.flatMap_nil, readAll?]
  | cons l ls ih =>
    have hl := h l List.mem_cons_self
    rw [List.flatMap_cons, readAll?_append_of_read? (exists_spelling_cons hl)
      (read?_spelling_append hl _), ih fun l' hl' => h l' (List.mem_cons_of_mem _ hl')]
    rfl

end Lexeme

end Rulebook.Json
