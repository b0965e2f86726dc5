import Rulebook.Condition
import Rulebook.Proofs.TextRuns

/-! # What is written as a condition

A clause is written as a word, a comparator and a literal with blanks between them
(`Clause.WellFormed`, `Clause.IsLiteral`).  Reading a clause off a text always gives a well-formed
one (`wellFormed_of_read?`).  Conversely, a well-formed clause is read back from its spelling
whatever follows, provided that what follows cannot prolong its literal (`read?_spelling_append`).
Both rest on the characters of neighbouring parts being disjoint: no word character is a blank, no
blank can stand in a bare literal, and a comparator is neither.

So a text says a condition exactly if it is a well-formed clause between blanks
(`Condition.parse?_eq_some_iff`), and the clause is the text without these blanks
(`trimBlank_append`).
-/
namespace Rulebook

/-! ## Classes of characters -/

theorem exists_range_of_inRanges {n : Nat} {ranges : List (Nat × Nat)}
    (h : inRanges n ranges = true) : ∃ p ∈ ranges, p.1 ≤ n ∧ n ≤ p.2 := by
  induction ranges with
  | nil => cases h
  | cons p rest ih =>
    rw [inRanges_cons] at h
    split at h
    · cases h
    · split at h
      · exact ⟨p, List.mem_cons_self, by omega⟩
      · obtain ⟨q, hq, hn⟩ := ih h
        exact ⟨q, List.mem_cons_of_mem _ hq, hn⟩

/-- The blanks, which are few, are looked up among the word characters one by one. -/
theorem blankRanges_not_word :
    ∀ p ∈ blankRanges, ∀ n ∈ List.range' p.1 (p.2 + 1 - p.1), inRanges n wordRanges = false := by
  decide +kernel

theorem isWordChar_of_isBlank {c : Char} (h : isBlank c = true) : isWordChar c = false := by
  obtain ⟨p, hp, hle⟩ := exists_range_of_inRanges h
  exact blankRanges_not_word p hp c.toNat (List.mem_range'_1.mpr (by omega))

theorem isBlank_of_isWordChar {c : Char} (h : isWordChar c = true) : isBlank c = false := by
  cases hb : isBlank c with
  | false => rfl
  | true => exact absurd h (by rw [isWordChar_of_isBlank hb]; decide)

theorem isBareChar_of_isBlank {c : Char} (h : isBlank c = true) : Clause.isBareChar c = false := by
  have hdot : c ≠ '.' := ne_of_class h (by decide)
  rw [Clause.isBareChar, isWordChar_of_isBlank h]
  simpa using hdot

theorem isBlank_of_isBareChar {c : Char} (h : Clause.isBareChar c = true) : isBlank c = false := by
  cases hb : isBlank c with
  | false => rfl
  | true => exact absurd h (by rw [isBareChar_of_isBlank hb]; decide)

theorem Comparator.isWordChar_symbol (o : Comparator) : isWordChar o.symbol = false := by
  cases o <;> decide

theorem Comparator.isBlank_symbol (o : Comparator) : isBlank o.symbol = false := by
  cases o <;> decide

/-- What follows a text of blanks stops a bare literal if the blanks are followed by nothing or by
something that does. -/
theorem stops_isBareChar_append {blanks rest : List Char} (h : ∀ c ∈ blanks, isBlank c)
    (hr : Stops Clause.isBareChar rest) : Stops Clause.isBareChar (blanks ++ rest) := by
  cases blanks with
  | nil => exact hr
  | cons c cs => exact stops_cons.mpr (isBareChar_of_isBlank (h c List.mem_cons_self))

namespace Clause

/-! ## Literals -/

/-- The forms of a literal: in quotes, with any characters but that quote between them, or a run of
bare characters, perhaps after a minus sign. -/
inductive IsLiteral : List Char → Prop
  | quoted {q : Char} {body : List Char} (hq : q = '\'' ∨ q = '"') (hbody : q ∉ body) :
    IsLiteral (q :: (body ++ [q]))
  | bare {sign run : List Char} (hsign : sign = [] ∨ sign = ['-']) (hne : run ≠ [])
    (hrun : ∀ c ∈ run, isBareChar c) : IsLiteral (sign ++ run)

theorem exists_body_of_readQuoted {q : Char} {cs literal rest : List Char}
    (h : readQuoted q cs = some (literal, rest)) :
    ∃ body, q ∉ body ∧ literal = q :: (body ++ [q]) := by
  unfold readQuoted at h
  split at h
  · cases h
  · obtain ⟨rfl, -⟩ := Prod.mk.inj (Option.some.inj h)
    refine ⟨_, fun hmem => ?_, rfl⟩
    simpa using List.mem_takeWhile_imp hmem

theorem isLiteral_of_readQuoted {q : Char} {cs literal rest : List Char} (hq : q = '\'' ∨ q = '"')
    (h : readQuoted q cs = some (literal, rest)) : IsLiteral literal := by
  obtain ⟨body, hbody, rfl⟩ := exists_body_of_readQuoted h
  exact .quoted hq hbody

theorem isLiteral_of_readBare {sign cs literal rest : List Char} (hsign : sign = [] ∨ sign = ['-'])
    (h : readBare sign cs = some (literal, rest)) : IsLiteral literal := by
  unfold readBare at h
  split at h
  · cases h
  · rename_i hne
    obtain ⟨rfl, -⟩ := Prod.mk.inj (Option.some.inj h)
    exact .bare hsign hne fun c hc => List.mem_takeWhile_imp hc

theorem isLiteral_of_readLiteral {cs literal rest : List Char}
    (h : readLiteral cs = some (literal, rest)) : IsLiteral literal := by
  unfold readLiteral at h
  split at h
  · cases h
  · split at h
    · rename_i hq
      exact isLiteral_of_readQuoted hq h
    · split at h
      · exact isLiteral_of_readBare (.inr rfl) h
      · exact isLiteral_of_readBare (.inl rfl) h

theorem readQuoted_append_quote {q : Char} {body : List Char} (hbody : q ∉ body)
    (rest : List Char) : readQuoted q (body ++ q :: rest) = some (q :: (body ++ [q]), rest) := by
  have hb : ∀ c ∈ body, (c != q) = true := by
    intro c hc
    exact bne_iff_ne.mpr fun he => hbody (he ▸ hc)
  have hs : Stops (· != q) (q :: rest) := stops_cons.mpr (by simp)
  rw [readQuoted, dropWhile_append_of_stops hb hs, takeWhile_append_of_stops hb hs]
  rfl

theorem readBare_append_of_stops {run rest : List Char} (hne : run ≠ [])
    (hrun : ∀ c ∈ run, isBareChar c) (hr : Stops isBareChar rest) (sign : List Char) :
    readBare sign (run ++ rest) = some (sign ++ run, rest) := by
  rw [readBare, takeWhile_append_of_stops hrun hr, dropWhile_append_of_stops hrun hr, if_neg hne]

theorem readLiteral_quoted_append {q : Char} {body : List Char} (hq : q = '\'' ∨ q = '"')
    (hbody : q ∉ body) (rest : List Char) :
    readLiteral (q :: (body ++ [q]) ++ rest) = some (q :: (body ++ [q]), rest) := by
  rw [List.cons_append, List.append_assoc, readLiteral, if_pos hq]
  exact readQuoted_append_quote hbody rest

/-- A literal is read whole, if what follows cannot prolong it. -/
theorem readLiteral_append_of_stops {literal rest : List Char} (h : IsLiteral literal)
    (hr : Stops isBareChar rest) : readLiteral (literal ++ rest) = some (literal, rest) := by
  cases h with
  | @quoted q body hq hbody => exact readLiteral_quoted_append hq hbody rest
  | @bare sign run hsign hne hrun =>
    rcases hsign with rfl | rfl
    · have hb := readBare_append_of_stops hne hrun hr []
      cases run with
      | nil => exact absurd rfl hne
      | cons c cs =>
        -- a bare character opens neither a quoted literal nor a negative one
        have hc : isBareChar c = true := hrun c List.mem_cons_self
        have hq : ¬ (c = '\'' ∨ c = '"') :=
          not_or.mpr ⟨ne_of_class hc (by decide), ne_of_class hc (by decide)⟩
        have hm : c ≠ '-' := ne_of_class hc (by decide)
        rw [List.nil_append, List.cons_append, readLiteral, if_neg hq, if_neg hm]
        exact hb
    · rw [List.append_assoc, List.cons_append, readLiteral, if_neg (by decide), if_pos rfl,
        List.nil_append]
      exact readBare_append_of_stops hne hrun hr ['-']

/-- A literal is read off every text that it begins, and with it what prolongs it there. -/
theorem IsLiteral.exists_readLiteral_append {literal : List Char} (h : IsLiteral literal)
    (rest : List Char) : ∃ more rest', rest = more ++ rest' ∧
      readLiteral (literal ++ rest) = some (literal ++ more, rest') := by
  cases h with
  | @quoted q body hq hbody =>
    refine ⟨[], rest, rfl, ?_⟩
    rw [List.append_nil]
    exact readLiteral_quoted_append hq hbody rest
  | @bare sign run hsign hne hrun =>
    refine ⟨rest.takeWhile isBareChar, rest.dropWhile isBareChar,
      List.takeWhile_append_dropWhile.symm, ?_⟩
    have hlong : IsLiteral (sign ++ (run ++ rest.takeWhile isBareChar)) := by
      refine .bare hsign (by simp [hne]) (List.forall_mem_append.mpr ⟨hrun, ?_⟩)
      exact fun c hc => List.mem_takeWhile_imp hc
    have hread := readLiteral_append_of_stops hlong (stops_dropWhile isBareChar rest)
    rw [← List.append_assoc sign] at hread
    rwa [List.append_assoc _ (rest.takeWhile isBareChar),
      List.takeWhile_append_dropWhile] at hread

/-- A literal does not begin with a blank. -/
theorem IsLiteral.stops_isBlank {literal : List Char} (h : IsLiteral literal) (rest : List Char) :
    Stops isBlank (literal ++ rest) := by
  cases h with
  | @quoted q body hq _ => rcases hq with rfl | rfl <;> exact stops_cons.mpr (by decide)
  | @bare sign run hsign hne hrun =>
    rcases hsign with rfl | rfl
    · cases run with
      | nil => exact absurd rfl hne
      | cons c cs => exact stops_cons.mpr (isBlank_of_isBareChar (hrun c List.mem_cons_self))
    · exact stops_cons.mpr (by decide)

theorem IsLiteral.exists_concat {literal : List Char} (h : IsLiteral literal) :
    ∃ cs c, literal = cs ++ [c] ∧ isBlank c = false := by
  cases h with
  | @quoted q body hq _ =>
    refine ⟨q :: body, q, rfl, ?_⟩
    rcases hq with rfl | rfl <;> decide
  | @bare sign run hsign hne hrun =>
    refine ⟨sign ++ run.dropLast, run.getLast hne, ?_, ?_⟩
    · rw [List.append_assoc, List.dropLast_concat_getLast]
    · exact isBlank_of_isBareChar (hrun _ (List.getLast_mem hne))

/-- A literal has no blanks at its ends. -/
theorem IsLiteral.trimBlank_eq_self {literal : List Char} (h : IsLiteral literal) :
    trimBlank literal = literal := by
  have hfront := h.stops_isBlank []
  rw [List.append_nil] at hfront
  obtain ⟨cs, c, hcs, hc⟩ := h.exists_concat
  refine trimBlank_of_stops hfront ?_
  rw [hcs, List.reverse_append]
  exact stops_cons.mpr hc

/-! ## Clauses -/

theorem spelling_word_append (w : List Char) (c : Clause) :
    spelling { c with attr := w ++ c.attr } = w ++ c.spelling := by
  simp [spelling]

theorem spelling_literal_append (c : Clause) (more : List Char) :
    spelling { c with literal := c.literal ++ more } = c.spelling ++ more := by
  simp [spelling]

/-- The parts of a clause are what they have to be. -/
structure WellFormed (c : Clause) : Prop where
  attr_ne_nil : c.attr ≠ []
  attr_word : ∀ x ∈ c.attr, isWordChar x
  gapBefore_blank : ∀ x ∈ c.gapBefore, isBlank x
  gapAfter_blank : ∀ x ∈ c.gapAfter, isBlank x
  literal_isLiteral : IsLiteral c.literal

/-- **What is read is well formed.** -/
theorem wellFormed_of_read? {cs rest : List Char} {c : Clause} (h : read? cs = some (c, rest)) :
    c.WellFormed := by
  simp only [read?] at h
  split at h
  · cases h
  · rename_i hne
    unfold readComparison at h
    split at h
    · cases h
    · simp only [bind, Option.bind_eq_some_iff] at h
      obtain ⟨o, -, ⟨literal, rest'⟩, hl, h⟩ := h
      obtain ⟨rfl, -⟩ := Prod.mk.inj (Option.some.inj h)
      exact ⟨hne, fun x hx => List.mem_takeWhile_imp hx, fun x hx => List.mem_takeWhile_imp hx,
        fun x hx => List.mem_takeWhile_imp hx, isLiteral_of_readLiteral hl⟩

/-- A clause is read by its literal, if what stands in front of it is written as it has to be. -/
theorem read?_append {attr gap gap' : List Char} (hne : attr ≠ [])
    (hattr : ∀ c ∈ attr, isWordChar c) (hgap : ∀ c ∈ gap, isBlank c) (o : Comparator)
    (hgap' : ∀ c ∈ gap', isBlank c) {cs : List Char} (hcs : Stops isBlank cs) :
    read? (attr ++ (gap ++ o.symbol :: (gap' ++ cs))) =
      (readLiteral cs).map fun r => (⟨attr, gap, o, gap', r.1⟩, r.2) := by
  have hsym : Stops isBlank (o.symbol :: (gap' ++ cs)) := stops_cons.mpr o.isBlank_symbol
  have hword : Stops isWordChar (gap ++ o.symbol :: (gap' ++ cs)) := by
    cases gap with
    | nil => exact stops_cons.mpr o.isWordChar_symbol
    | cons c gap => exact stops_cons.mpr (isWordChar_of_isBlank (hgap c List.mem_cons_self))
  simp only [read?, takeWhile_append_of_stops hattr hword, dropWhile_append_of_stops hattr hword,
    if_neg hne, takeWhile_append_of_stops hgap hsym, dropWhile_append_of_stops hgap hsym,
    readComparison, takeWhile_append_of_stops hgap' hcs, dropWhile_append_of_stops hgap' hcs,
    Comparator.ofSymbol?_symbol]
  cases readLiteral cs <;> rfl

namespace WellFormed

variable {c : Clause}

/-- Blanks and a comparator stop a word. -/
theorem stops_isWordChar (h : c.WellFormed) (rest : List Char) :
    Stops isWordChar (c.gapBefore ++ c.comparator.symbol :: rest) := by
  cases hg : c.gapBefore with
  | nil => exact stops_cons.mpr c.comparator.isWordChar_symbol
  | cons x xs =>
    exact stops_cons.mpr (isWordChar_of_isBlank (h.gapBefore_blank x (by rw [hg]; simp)))

theorem takeWhile_isWordChar (h : c.WellFormed) (rest : List Char) :
    (c.spelling ++ rest).takeWhile isWordChar = c.attr := by
  rw [spelling, List.append_assoc, List.append_assoc]
  exact takeWhile_append_of_stops h.attr_word (h.stops_isWordChar _)

/-- A clause is read by its literal, and with it what prolongs the literal. -/
theorem read?_append_of_readLiteral (h : c.WellFormed) {rest literal rest' : List Char}
    (hread : readLiteral (c.literal ++ rest) = some (literal, rest')) :
    read? (c.spelling ++ rest) = some ({ c with literal := literal }, rest') := by
  have hspelling : c.spelling ++ rest =
      c.attr ++ (c.gapBefore ++ c.comparator.symbol :: (c.gapAfter ++ (c.literal ++ rest))) := by
    simp [spelling]
  rw [hspelling, read?_append h.attr_ne_nil h.attr_word h.gapBefore_blank c.comparator
    h.gapAfter_blank (h.literal_isLiteral.stops_isBlank rest), hread]
  rfl

/-- **A well-formed clause is read back from its spelling**, if what follows cannot prolong it. -/
theorem read?_spelling_append (h : c.WellFormed) {rest : List Char} (hr : Stops isBareChar rest) :
    read? (c.spelling ++ rest) = some (c, rest) :=
  h.read?_append_of_readLiteral (readLiteral_append_of_stops h.literal_isLiteral hr)

/-- A clause is read off every text that it begins, and with it what prolongs its literal there. -/
theorem exists_read?_append (h : c.WellFormed) (rest : List Char) :
    ∃ more rest', rest = more ++ rest' ∧
      read? (c.spelling ++ rest) = some ({ c with literal := c.literal ++ more }, rest') := by
  obtain ⟨more, rest', hrest, hread⟩ := h.literal_isLiteral.exists_readLiteral_append rest
  exact ⟨more, rest', hrest, h.read?_append_of_readLiteral hread⟩

/-- A clause with more of a word in front is a clause. -/
theorem word_append (h : c.WellFormed) {w : List Char} (hw : ∀ x ∈ w, isWordChar x) :
    WellFormed { c with attr := w ++ c.attr } where
  attr_ne_nil := List.append_ne_nil_of_right_ne_nil w h.attr_ne_nil
  attr_word := List.forall_mem_append.mpr ⟨hw, h.attr_word⟩
  gapBefore_blank := h.gapBefore_blank
  gapAfter_blank := h.gapAfter_blank
  literal_isLiteral := h.literal_isLiteral

theorem exists_spelling_cons (h : c.WellFormed) :
    ∃ x xs, c.spelling = x :: xs ∧ isWordChar x = true := by
  cases ha : c.attr with
  | nil => exact absurd ha h.attr_ne_nil
  | cons x xs =>
    refine ⟨x, xs ++ c.gapBefore ++ c.comparator.symbol :: (c.gapAfter ++ c.literal), ?_, ?_⟩
    · rw [spelling, ha]
      rfl
    · exact h.attr_word x (by rw [ha]; exact List.mem_cons_self)

/-- A clause does not begin with a blank. -/
theorem stops_isBlank (h : c.WellFormed) (rest : List Char) :
    Stops isBlank (c.spelling ++ rest) := by
  obtain ⟨x, xs, hx, hword⟩ := h.exists_spelling_cons
  rw [hx]
  exact stops_cons.mpr (isBlank_of_isWordChar hword)

theorem exists_spelling_concat (h : c.WellFormed) :
    ∃ xs x, c.spelling = xs ++ [x] ∧ isBlank x = false := by
  obtain ⟨xs, x, hx, hb⟩ := h.literal_isLiteral.exists_concat
  refine ⟨c.attr ++ c.gapBefore ++ c.comparator.symbol :: (c.gapAfter ++ xs), x, ?_, hb⟩
  rw [spelling, hx]
  simp

/-- A clause is read back from its spelling between blanks. -/
theorem read?_dropWhile_append (h : c.WellFormed) {before after : List Char}
    (hb : ∀ x ∈ before, isBlank x) (ha : ∀ x ∈ after, isBlank x) :
    read? ((before ++ (c.spelling ++ after)).dropWhile isBlank) = some (c, after) := by
  -- the blanks behind the clause do not prolong its literal
  have hafter : Stops isBareChar after := by
    rw [← List.append_nil after]
    exact stops_isBareChar_append ha (stops_nil _)
  rw [dropWhile_append_of_stops hb (h.stops_isBlank after), h.read?_spelling_append hafter]

/-- A clause without the blanks around it is its spelling. -/
theorem trimBlank_append (h : c.WellFormed) {before after : List Char}
    (hb : ∀ x ∈ before, isBlank x) (ha : ∀ x ∈ after, isBlank x) :
    trimBlank (before ++ (c.spelling ++ after)) = c.spelling := by
  obtain ⟨ys, y, hy, hblank⟩ := h.exists_spelling_concat
  refine trimBlank_between hb ha (h.stops_isBlank after) ?_
  rw [hy, List.reverse_append]
  exact stops_cons.mpr hblank

end WellFormed

end Clause

namespace Condition

theorem parse_eq_ok_iff {text : String} {c : Condition} :
    parse text = .ok c ↔ parse? text = some c := by
  unfold parse
  cases parse? text <;> simp

theorem exists_parse_eq_ok_iff {text : String} :
    (∃ c, parse text = .ok c) ↔ (parse? text).isSome := by
  simp only [parse_eq_ok_iff, Option.isSome_iff_exists]

/-- **A text says a condition exactly if it is a well-formed clause between blanks.** -/
theorem parse?_eq_some_iff {s : String} {cond : Condition} :
    parse? s = some cond ↔ ∃ (before : List Char) (clause : Clause) (after : List Char),
      s.toList = before ++ (clause.spelling ++ after) ∧ (∀ x ∈ before, isBlank x) ∧
        (∀ x ∈ after, isBlank x) ∧ clause.WellFormed ∧ clause.condition = cond := by
  constructor
  · intro h
    unfold parse? at h
    split at h
    · rename_i clause rest hr
      split at h
      · rename_i hall
        obtain rfl := Option.some.inj h
        refine ⟨s.toList.takeWhile isBlank, clause, rest, ?_, fun x hx => List.mem_takeWhile_imp hx,
          List.all_eq_true.mp hall, Clause.wellFormed_of_read? hr, rfl⟩
        rw [Clause.spelling_append hr, List.takeWhile_append_dropWhile]
      · cases h
    · cases h
  · rintro ⟨before, clause, after, hs, hb, ha, hc, rfl⟩
    rw [parse?, hs, hc.read?_dropWhile_append hb ha]
    exact if_pos (List.all_eq_true.mpr ha)

end Condition

end Rulebook
