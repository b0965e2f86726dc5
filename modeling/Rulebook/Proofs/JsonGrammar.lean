import Mathlib.Data.List.Chain
import Rulebook.Json.Value
import Rulebook.Proofs.JsonLexemes
import Rulebook.Proofs.NumeralGrammar

/-! # How JSON texts are written

The lexical grammar of JSON, as relations between texts and what they stand for.  A string is
written piece by piece, each piece as the character itself or as an escape (`Piece.Written`,
`IsBody`); a lexeme is written in one of its forms (`Lexeme.Written`); and a text of lexemes has
blanks in front of any of them and at its end (`Spaced`).  A text spells a value when it is a text
of the lexemes of that value (`Spells`).

What the lexer finds in a text is always written there (`spaced_of_readAll?`).  Conversely it finds
what is written if no number can run into the next lexeme, which holds as soon as no two atoms
stand side by side (`readAll?_of_spaced`).
-/
namespace Rulebook.Json

/-! ## Blanks -/

theorem isSpace_iff {c : Char} : isSpace c = true ↔ c = ' ' ∨ c = '\n' ∨ c = '\t' ∨ c = '\r' := by
  simp [isSpace, or_assoc]

/-- No blank is part of a numeral. -/
theorem isNumeralChar_of_isSpace {c : Char} (h : isSpace c = true) :
    Numeral.isNumeralChar c = false := by
  rcases isSpace_iff.mp h with rfl | rfl | rfl | rfl <;> decide

theorem isSpace_of_isDigitChar {c : Char} (h : isDigitChar c = true) : isSpace c = false := by
  cases hc : isSpace c with
  | false => rfl
  | true => rcases isSpace_iff.mp hc with rfl | rfl | rfl | rfl <;> exact absurd h (by decide)

/-! ## Strings -/

/-- The text writes the piece: a character as itself, or by a letter or a number behind a
backslash. -/
inductive Piece.Written : List Char → Piece → Prop
  | plain {c : Char} (hquote : c ≠ '"') (hbackslash : c ≠ '\\') (hcontrol : ¬ c.toNat < 0x20) :
    Written [c] (.char c)
  | letter {x c : Char} (h : letterEscape? x = some c) : Written ['\\', x] (.char c)
  | number {a b c d : Char} {n : Nat} (h : hexUnit? a b c d = some n) :
    Written ['\\', 'u', a, b, c, d] (.ofUnit n)

/-- The text, between its quotes, writes the pieces one after the other. -/
inductive IsBody : List Char → List Piece → Prop
  | nil : IsBody [] []
  | cons {w body : List Char} {p : Piece} {ps : List Piece} (hw : p.Written w)
    (hbody : IsBody body ps) : IsBody (w ++ body) (p :: ps)

/-- Reading a written piece, whatever follows. -/
theorem readPieces_written_append {w : List Char} {p : Piece} (h : p.Written w)
    (rest : List Char) :
    readPieces (w ++ rest) = (readPieces rest).map fun q => (p :: q.1, q.2) := by
  cases h with
  | plain hquote hbackslash hcontrol => exact readPieces_plain hquote hbackslash hcontrol rest
  | @letter x c h =>
    have hx : x ≠ 'u' := by
      rintro rfl
      cases h
    exact readPieces_letter hx h rest
  | number h =>
    rw [List.cons_append, List.cons_append, List.cons_append, List.cons_append, List.cons_append,
      List.cons_append, List.nil_append, readPieces, h, Option.bind_eq_bind, Option.bind_some]
    cases readPieces rest <;> rfl

theorem readPieces_body_append {body : List Char} {ps : List Piece} (h : IsBody body ps)
    (rest : List Char) : readPieces (body ++ '"' :: rest) = some (ps, rest) := by
  induction h with
  | nil => rw [List.nil_append, readPieces]
  | cons hw _ ih =>
    rw [List.append_assoc, readPieces_written_append hw, ih]
    rfl

/-- The pieces that are read are written in front of the closing quote. -/
theorem isBody_of_readPieces {cs rest : List Char} {ps : List Piece}
    (h : readPieces cs = some (ps, rest)) : ∃ body, cs = body ++ '"' :: rest ∧ IsBody body ps := by
  fun_induction readPieces cs generalizing ps rest with
  | case1 => cases h
  | case2 r =>
    obtain ⟨rfl, rfl⟩ := Prod.mk.inj (Option.some.inj h)
    exact ⟨[], rfl, .nil⟩
  | case3 a b c d r ih =>
    simp only [bind, Option.bind_eq_some_iff] at h
    obtain ⟨n, hn, ⟨ps', r'⟩, hr, h⟩ := h
    obtain ⟨rfl, rfl⟩ := Prod.mk.inj (Option.some.inj h)
    obtain ⟨body, rfl, hbody⟩ := ih hr
    exact ⟨_, rfl, .cons (.number hn) hbody⟩
  | case4 x r _ ih =>
    simp only [bind, Option.bind_eq_some_iff] at h
    obtain ⟨c, hc, ⟨ps', r'⟩, hr, h⟩ := h
    obtain ⟨rfl, rfl⟩ := Prod.mk.inj (Option.some.inj h)
    obtain ⟨body, rfl, hbody⟩ := ih hr
    exact ⟨_, rfl, .cons (.letter hc) hbody⟩
  | case5 => cases h
  | case6 c r hquote _ _ hplain ih =>
    simp only [bind, Option.bind_eq_some_iff] at h
    obtain ⟨⟨ps', r'⟩, hr, h⟩ := h
    obtain ⟨rfl, rfl⟩ := Prod.mk.inj (Option.some.inj h)
    obtain ⟨body, rfl, hbody⟩ := ih hr
    obtain ⟨hcontrol, hbackslash⟩ := not_or.mp hplain
    exact ⟨_, rfl, .cons (.plain hquote hbackslash hcontrol) hbody⟩

/-! ## Lexemes -/

namespace Lexeme

/-- The text writes the lexeme.  A string is missing if the surrogate pairs among its pieces are
not whole. -/
inductive Written : List Char → Lexeme → Prop
  | openArray : Written ['['] .openArray
  | closeArray : Written [']'] .closeArray
  | openObject : Written ['\x7b'] .openObject
  | closeObject : Written ['\x7d'] .closeObject
  | comma : Written [','] .comma
  | colon : Written [':'] .colon
  | null : Written ['n', 'u', 'l', 'l'] (.atom .null)
  | trueWord : Written ['t', 'r', 'u', 'e'] (.atom (.bool true))
  | falseWord : Written ['f', 'a', 'l', 's', 'e'] (.atom (.bool false))
  | number {cs : List Char} {n : Numeral} (h : n.Strict cs) : Written cs (.atom (.number n))
  | text {body : List Char} {ps : List Piece} (h : IsBody body ps) :
    Written ('"' :: (body ++ ['"'])) (.atom (.text ((joinPieces ps).map String.ofList)))

/-- A numeral begins with a minus sign or a digit. -/
theorem exists_numeral_cons {cs : List Char} {n : Numeral} (h : n.Strict cs) :
    ∃ c tail, cs = c :: tail ∧ (c = '-' ∨ isDigitChar c = true) := by
  obtain @⟨negative, whole, fraction, exponent, point, tail, hwhole, -, -, -⟩ := h
  cases negative with
  | true => exact ⟨'-', _, rfl, .inl rfl⟩
  | false =>
    cases whole with
    | nil => exact absurd rfl hwhole
    | cons d ds => exact ⟨d.toChar, _, rfl, .inr d.isDigitChar_toChar⟩

/-- At a minus sign or a digit the lexer reads a numeral. -/
theorem read?_numeral {c : Char} (h : c = '-' ∨ isDigitChar c = true) (cs : List Char) :
    read? (c :: cs) =
      (Numeral.readStrict (c :: cs)).map fun p => (.atom (.number p.1), p.2) := by
  unfold read?
  split
  case h_11 => rfl
  all_goals
    rename_i heq
    obtain ⟨rfl, -⟩ := List.cons.inj heq
    exact absurd h (by decide)

/-- **A written lexeme is read**, if it is no number or what follows cannot prolong it. -/
theorem read?_written_append {s rest : List Char} {l : Lexeme} (h : l.Written s)
    (hr : ∀ n, l = .atom (.number n) → Stops Numeral.isNumeralChar rest) :
    read? (s ++ rest) = some (l, rest) := by
  cases h with
  | openArray | closeArray | openObject | closeObject | comma | colon | null => rfl
  | trueWord | falseWord => rfl
  | @number _ n hn =>
    obtain ⟨c, tail, rfl, hc⟩ := exists_numeral_cons hn
    rw [List.cons_append, read?_numeral hc, ← List.cons_append,
      Numeral.readStrict_append hn (hr n rfl)]
    rfl
  | text hbody =>
    rw [List.cons_append, List.append_assoc, read?_quote, readString, List.singleton_append,
      readPieces_body_append hbody]
    rfl

/-- The lexeme that is read is written at the front of the text. -/
theorem written_of_read? {cs rest : List Char} {l : Lexeme} (h : read? cs = some (l, rest)) :
    ∃ s, cs = s ++ rest ∧ l.Written s := by
  unfold read? at h
  split at h
  case h_7 =>
    obtain ⟨⟨s, r⟩, hs, h⟩ := Option.map_eq_some_iff.mp h
    obtain ⟨rfl, rfl⟩ := Prod.mk.inj h
    obtain ⟨⟨ps, r⟩, hp, hs⟩ := Option.map_eq_some_iff.mp hs
    obtain ⟨rfl, rfl⟩ := Prod.mk.inj hs
    obtain ⟨body, rfl, hbody⟩ := isBody_of_readPieces hp
    exact ⟨'"' :: (body ++ ['"']), by simp, .text hbody⟩
  case h_11 =>
    obtain ⟨⟨n, r⟩, hn, h⟩ := Option.map_eq_some_iff.mp h
    obtain ⟨rfl, rfl⟩ := Prod.mk.inj h
    obtain ⟨s, rfl, hs⟩ := Numeral.strict_of_readStrict hn
    exact ⟨s, rfl, .number hs⟩
  all_goals
    obtain ⟨rfl, rfl⟩ := Prod.mk.inj (Option.some.inj h)
    exact ⟨_, rfl, by constructor⟩

/-- A lexeme takes room, and does not begin with a blank. -/
theorem Written.exists_cons {s : List Char} {l : Lexeme} (h : l.Written s) :
    ∃ c cs, s = c :: cs ∧ isSpace c = false := by
  cases h with
  | openArray | closeArray | openObject | closeObject | comma | colon | null =>
    exact ⟨_, _, rfl, by decide⟩
  | trueWord | falseWord | text _ => exact ⟨_, _, rfl, by decide⟩
  | number hn =>
    obtain ⟨c, tail, rfl, hc⟩ := exists_numeral_cons hn
    refine ⟨c, tail, rfl, ?_⟩
    rcases hc with rfl | hc
    · decide
    · exact isSpace_of_isDigitChar hc

end Lexeme

/-! ## Texts of lexemes -/

/-- The text writes the lexemes, with blanks in front of any of them and at the end. -/
inductive Spaced : List Char → List Lexeme → Prop
  | nil {blanks : List Char} (hblanks : ∀ c ∈ blanks, isSpace c) : Spaced blanks []
  | cons {blanks s rest : List Char} {l : Lexeme} {ls : List Lexeme}
    (hblanks : ∀ c ∈ blanks, isSpace c) (hs : l.Written s) (hrest : Spaced rest ls) :
    Spaced (blanks ++ (s ++ rest)) (l :: ls)

/-- A blank more in front of a text of lexemes. -/
theorem Spaced.cons_space {cs : List Char} {ls : List Lexeme} (h : Spaced cs ls) {c : Char}
    (hc : isSpace c = true) : Spaced (c :: cs) ls := by
  cases h with
  | nil hblanks => exact .nil (List.forall_mem_cons.mpr ⟨hc, hblanks⟩)
  | cons hblanks hs hrest => exact .cons (List.forall_mem_cons.mpr ⟨hc, hblanks⟩) hs hrest

/-- **What the lexer finds in a text is written there.** -/
theorem spaced_of_readAll? {cs : List Char} {ls : List Lexeme}
    (h : Lexeme.readAll? cs = some ls) : Spaced cs ls := by
  fun_induction Lexeme.readAll? cs generalizing ls with
  | case1 =>
    obtain rfl := Option.some.inj h
    exact .nil (List.forall_mem_nil _)
  | case2 c tail hc ih => exact (ih h).cons_space hc
  | case3 => cases h
  | case4 c tail _ l rest hread _ ih =>
    obtain ⟨ls', hls, rfl⟩ := Option.map_eq_some_iff.mp h
    obtain ⟨s, hs, hwritten⟩ := Lexeme.written_of_read? hread
    rw [hs]
    exact .cons (List.forall_mem_nil _) hwritten (ih hls)

namespace Lexeme

/-- Whether the lexeme is an atom. -/
def isAtom : Lexeme → Bool
  | .atom _ => true
  | _ => false

/-- No two atoms stand side by side. -/
def Apart (ls : List Lexeme) : Prop := ls.IsChain fun l next => ¬ (l.isAtom ∧ next.isAtom)

theorem isNumeralChar_of_written {c : Char} {cs : List Char} {l : Lexeme}
    (h : l.Written (c :: cs)) (ha : l.isAtom = false) : Numeral.isNumeralChar c = false := by
  cases h <;> first | decide | cases ha

end Lexeme

/-- A text whose first lexeme, if it has one, is no atom cannot prolong a number. -/
theorem Spaced.stops_isNumeralChar {cs : List Char} {ls : List Lexeme} (h : Spaced cs ls)
    (ha : ∀ l ∈ ls.head?, l.isAtom = false) : Stops Numeral.isNumeralChar cs := by
  cases h with
  | nil hblanks =>
    cases cs with
    | nil => exact stops_nil _
    | cons c cs => exact stops_cons.mpr (isNumeralChar_of_isSpace (hblanks c List.mem_cons_self))
  | @cons blanks s rest l ls hblanks hs hrest =>
    cases blanks with
    | nil =>
      obtain ⟨c, cs, rfl, -⟩ := hs.exists_cons
      exact stops_cons.mpr (Lexeme.isNumeralChar_of_written hs (ha l rfl))
    | cons c cs => exact stops_cons.mpr (isNumeralChar_of_isSpace (hblanks c List.mem_cons_self))

theorem readAll?_blanks_append {blanks : List Char} (h : ∀ c ∈ blanks, isSpace c)
    (cs : List Char) : Lexeme.readAll? (blanks ++ cs) = Lexeme.readAll? cs := by
  induction blanks with
  | nil => rfl
  | cons c blanks ih =>
    rw [List.cons_append, Lexeme.readAll?, if_pos (h c List.mem_cons_self)]
    exact ih fun x hx => h x (List.mem_cons_of_mem _ hx)

/-- **The lexer finds what is written**, if no two atoms stand side by side. -/
theorem readAll?_of_spaced {cs : List Char} {ls : List Lexeme} (h : Spaced cs ls)
    (ha : Lexeme.Apart ls) : Lexeme.readAll? cs = some ls := by
  induction h with
  | @nil blanks hblanks =>
    have hb := readAll?_blanks_append hblanks []
    rw [List.append_nil] at hb
    rw [hb, Lexeme.readAll?]
  | @cons blanks s rest l ls hblanks hs hrest ih =>
    have hstops : ∀ n, l = .atom (.number n) → Stops Numeral.isNumeralChar rest := by
      rintro n rfl
      refine hrest.stops_isNumeralChar fun next hnext => ?_
      have hnot := (List.isChain_cons.mp ha).1 next hnext
      simpa [Lexeme.isAtom] using hnot
    rw [readAll?_blanks_append hblanks, Lexeme.readAll?_append_of_read? hs.exists_cons
      (Lexeme.read?_written_append hs hstops), ih (List.isChain_cons.mp ha).2]
    rfl

/-- **The text spells the value**: it writes the lexemes of the value, blanks between them. -/
def Spells (text : List Char) (v : Json) : Prop := Spaced text v.lexemes

end Rulebook.Json
