import Mathlib.Data.List.Basic
import Rulebook.Proofs.TokenSeams

/-! # Where tokens stand in a text

Where a token stands is said here without the scanner (`Token.Stands`): a parenthesis stands
anywhere, the word of a connective where a word begins and ends, and a condition where there is a
clause, the longest one at that place.  A *gap* is a part of a text in which no token begins
(`Token.Gap`), and a text is *laid out* as tokens if it consists of them and of gaps around them
(`Token.LaidOut`).

Every text is laid out as the tokens that the scanner finds (`Token.laidOut_scan`): where the
scanner passes over a character or over a word, no token begins there, for a clause that began
inside the word would make one that begins with the word (`Token.Gap.word_append`).  It is laid out
in no other way (`Token.LaidOut.scan_append`), since gaps are passed over (`Token.Gap.scan_append`)
and tokens are found where they stand (`Token.Stands.scan_append`).
-/
namespace Rulebook

namespace Token

/-! ## Borders of words -/

/-- Whether a text ends with a character of a word. -/
def endsInWord (cs : List Char) : Bool := cs.getLast?.any isWordChar

/-- Whether a text begins with a character of a word. -/
def beginsWithWord (cs : List Char) : Bool := cs.head?.any isWordChar

/-- A word ends or begins between the two texts: a word character stands on one side only. -/
def WordBorder (before after : List Char) : Prop := endsInWord before ≠ beginsWithWord after

/-- No word goes on from the first text into the second. -/
def Parted (before after : List Char) : Prop :=
  endsInWord before = false ∨ beginsWithWord after = false

theorem endsInWord_concat (cs : List Char) (c : Char) : endsInWord (cs ++ [c]) = isWordChar c := by
  simp [endsInWord]

theorem endsInWord_append {ds : List Char} (h : ds ≠ []) (cs : List Char) :
    endsInWord (cs ++ ds) = endsInWord ds := by
  rw [endsInWord, List.getLast?_append_of_ne_nil cs h, endsInWord]

theorem endsInWord_of_word {w : List Char} (hne : w ≠ []) (hw : ∀ c ∈ w, isWordChar c) :
    endsInWord w = true := by
  rw [endsInWord, List.getLast?_eq_some_getLast hne]
  exact hw _ (List.getLast_mem hne)

theorem beginsWithWord_append {w : List Char} (hne : w ≠ []) (hw : ∀ c ∈ w, isWordChar c)
    (cs : List Char) : beginsWithWord (w ++ cs) = true := by
  obtain ⟨c, w, rfl⟩ := List.exists_cons_of_ne_nil hne
  exact hw c List.mem_cons_self

theorem beginsWithWord_eq_false_iff {cs : List Char} :
    beginsWithWord cs = false ↔ Stops isWordChar cs := by
  cases cs with
  | nil => simp [beginsWithWord, stops_nil]
  | cons c cs => simp [beginsWithWord, stops_cons]

theorem Parted.endsInWord_eq {before w cs : List Char} (h : Parted before (w ++ cs)) (hne : w ≠ [])
    (hw : ∀ c ∈ w, isWordChar c) : endsInWord before = false := by
  refine h.resolve_right ?_
  rw [beginsWithWord_append hne hw]
  decide

/-- The word that a text begins with, if it does not go on behind the text. -/
theorem Parted.exists_word {before cs after : List Char} {c : Char}
    (h : Parted (before ++ c :: cs) after) (hc : isWordChar c = true) :
    ∃ w rest, c :: cs = w ++ rest ∧ w ≠ [] ∧ (∀ x ∈ w, isWordChar x) ∧
      Stops isWordChar (rest ++ after) := by
  have hsplit := (List.takeWhile_append_dropWhile (p := isWordChar) (l := c :: cs)).symm
  have hne : (c :: cs).takeWhile isWordChar ≠ [] := by simp [hc]
  have hw : ∀ x ∈ (c :: cs).takeWhile isWordChar, isWordChar x :=
    fun x hx => List.mem_takeWhile_imp hx
  refine ⟨_, _, hsplit, hne, hw, ?_⟩
  cases hrest : (c :: cs).dropWhile isWordChar with
  | nil =>
    -- the whole text is one word, and it is the parting that ends it
    rw [hrest, List.append_nil] at hsplit
    rw [hsplit, Parted, endsInWord_append hne, endsInWord_of_word hne hw] at h
    exact beginsWithWord_eq_false_iff.mp (h.resolve_left (by decide))
  | cons x rest =>
    have hstops := stops_dropWhile isWordChar (c :: cs)
    rw [hrest] at hstops
    exact stops_cons.mpr (stops_cons.mp hstops)

theorem parted_of_stops {before after : List Char} (h : Stops isWordChar after) :
    Parted before after := .inr (beginsWithWord_eq_false_iff.mpr h)

theorem word_ne_nil (k : Connective) : k.word.toList ≠ [] := by cases k <;> decide

/-- In front of the word of a connective there is a border exactly if no word ends there. -/
theorem wordBorder_word_iff {before : List Char} (k : Connective) (after : List Char) :
    WordBorder before (k.word.toList ++ after) ↔ endsInWord before = false := by
  rw [WordBorder, beginsWithWord_append (word_ne_nil k) (isWordChar_of_mem_word k), ne_eq,
    Bool.not_eq_true]

/-- Behind the word of a connective there is a border exactly if the word ends there. -/
theorem word_wordBorder_iff (before : List Char) (k : Connective) {after : List Char} :
    WordBorder (before ++ k.word.toList) after ↔ Stops isWordChar after := by
  rw [WordBorder, endsInWord_append (word_ne_nil k),
    endsInWord_of_word (word_ne_nil k) (isWordChar_of_mem_word k), ← beginsWithWord_eq_false_iff,
    ne_eq, eq_comm, Bool.not_eq_true]

/-! ## Tokens and gaps -/

/-- No clause that begins where this one does is longer, with this text behind it. -/
def Longest (clause : Clause) (after : List Char) : Prop :=
  ∀ c : Clause, c.WellFormed → c.spelling <+: clause.spelling ++ after →
    c.spelling.length ≤ clause.spelling.length

/-- The token stands between the two texts.  A parenthesis stands anywhere, a connective between
borders of words, and a condition as the longest of the clauses that begin there, if the word in
front of its comparator is no connective. -/
inductive Stands (before after : List Char) : Token → Prop
  | openParen : Stands before after .openParen
  | closeParen : Stands before after .closeParen
  | connective {k : Connective} (hfront : WordBorder before (k.word.toList ++ after))
    (hback : WordBorder (before ++ k.word.toList) after) : Stands before after (.connective k)
  | condition {clause : Clause} (h : clause.WellFormed)
    (hattr : Connective.ofWord? (String.ofList clause.attr) = none)
    (hlongest : Longest clause after) :
    Stands before after (.condition (String.ofList clause.spelling))

/-- No token begins in the gap, which stands between the two texts. -/
structure Gap (before gap after : List Char) : Prop where
  no_openParen : '(' ∉ gap
  no_closeParen : ')' ∉ gap
  /-- no connective between borders of words is in the gap -/
  no_connective : ∀ (x : List Char) (k : Connective) (y : List Char),
    gap = x ++ (k.word.toList ++ y) →
      ¬ (WordBorder (before ++ x) (k.word.toList ++ (y ++ after)) ∧
        WordBorder (before ++ x ++ k.word.toList) (y ++ after))
  /-- no clause begins in the gap, be it inside the gap or going on behind it -/
  no_clause : ∀ (x y : List Char) (clause : Clause), gap = x ++ y → y ≠ [] → clause.WellFormed →
    ¬ clause.spelling <+: y ++ after

/-- The text, which stands between two others, consists of the tokens and of gaps: one in front of
each token, and one behind the last. -/
inductive LaidOut : List Char → List Char → List Char → List Token → Prop
  | gap {before gap after : List Char} (h : Gap before gap after) : LaidOut before gap after []
  | token {before gap cs after : List Char} {t : Token} {ts : List Token}
    (hgap : Gap before gap (t.spelling ++ (cs ++ after)))
    (ht : Stands (before ++ gap) (cs ++ after) t)
    (h : LaidOut (before ++ gap ++ t.spelling) cs after ts) :
    LaidOut before (gap ++ (t.spelling ++ cs)) after (t :: ts)

variable {before gap cs after : List Char} {t : Token} {ts : List Token}

theorem gap_nil (before after : List Char) : Gap before [] after where
  no_openParen := List.not_mem_nil
  no_closeParen := List.not_mem_nil
  no_connective x k y h := by
    have hnil := (List.append_eq_nil_iff.mp (List.append_eq_nil_iff.mp h.symm).2).1
    exact absurd hnil (word_ne_nil k)
  no_clause x y clause h hne := absurd (List.append_eq_nil_iff.mp h.symm).2 hne

/-- What is left of a gap is a gap. -/
theorem Gap.of_append {front : List Char} (h : Gap before (front ++ gap) after) :
    Gap (before ++ front) gap after where
  no_openParen hmem := h.no_openParen (List.mem_append_right _ hmem)
  no_closeParen hmem := h.no_closeParen (List.mem_append_right _ hmem)
  no_connective x k y hgap := by
    have hk := h.no_connective (front ++ x) k y (by rw [hgap, List.append_assoc])
    rwa [← List.append_assoc before] at hk
  no_clause x y clause hgap :=
    h.no_clause (front ++ x) y clause (by rw [hgap, List.append_assoc])

/-! ## Passing over gaps -/

/-- A word in a gap is no connective, and no clause begins with it, so it is passed over. -/
theorem Gap.scan_word_append {w : List Char} (h : Gap before (w ++ gap) after) (hne : w ≠ [])
    (hw : ∀ c ∈ w, isWordChar c) (hfront : endsInWord before = false)
    (hback : Stops isWordChar (gap ++ after)) :
    scan (w ++ (gap ++ after)) = scan (gap ++ after) := by
  refine Token.scan_word_append hne hw ?_ hback ?_
  · cases hk : Connective.ofWord? (String.ofList w) with
    | none => rfl
    | some k =>
      obtain rfl := eq_word_of_ofWord? hk
      refine absurd ⟨?_, ?_⟩ (h.no_connective [] k gap rfl)
      · rw [List.append_nil]
        exact (wordBorder_word_iff k _).mpr hfront
      · exact (word_wordBorder_iff _ k).mpr hback
  · cases hread : Clause.read? (w ++ (gap ++ after)) with
    | none => rfl
    | some r =>
      obtain ⟨clause, rest⟩ := r
      refine absurd ?_ (h.no_clause [] (w ++ gap) clause rfl (by simp [hne])
        (Clause.wellFormed_of_read? hread))
      exact ⟨rest, by rw [Clause.spelling_append hread, List.append_assoc]⟩

/-- **A gap is passed over**, if no word crosses its ends. -/
theorem Gap.scan_append (h : Gap before gap after) (hfront : Parted before (gap ++ after))
    (hback : Parted (before ++ gap) after) : scan (gap ++ after) = scan after := by
  -- the scanner may pass over several characters at once, so the induction is on their number
  induction hn : gap.length using Nat.strong_induction_on generalizing before gap with
  | _ n ih =>
    subst hn
    cases gap with
    | nil => rfl
    | cons c gap =>
      by_cases hc : isWordChar c = true
      · obtain ⟨w, gap', hsplit, hne, hw, hstops⟩ := hback.exists_word hc
        rw [hsplit] at h hfront hback ⊢
        have hends : endsInWord before = false := by
          rw [List.append_assoc] at hfront
          exact hfront.endsInWord_eq hne hw
        rw [List.append_assoc, h.scan_word_append hne hw hends hstops]
        refine ih gap'.length ?_ h.of_append (parted_of_stops hstops) ?_ rfl
        · rw [hsplit, List.length_append]
          have := List.length_pos_iff.mpr hne
          omega
        · rwa [List.append_assoc]
      · have hc' : isWordChar c = false := by simpa using hc
        have ho : c ≠ '(' := fun he => h.no_openParen (by simp [he])
        have hcl : c ≠ ')' := fun he => h.no_closeParen (by simp [he])
        have hcons : Gap before ([c] ++ gap) after := h
        rw [List.cons_append, scan_cons_of_skipped ho hcl hc']
        refine ih gap.length (by simp) hcons.of_append ?_ ?_ rfl
        · exact .inl (by rw [endsInWord_concat, hc'])
        · rwa [List.append_assoc]

/-! ## Finding tokens -/

/-- **What is read at a place is the longest clause there.** -/
theorem read?_eq_some_iff_longest {clause : Clause} (h : clause.WellFormed) :
    Clause.read? (clause.spelling ++ after) = some (clause, after) ↔ Longest clause after := by
  constructor
  · rintro hread c hc ⟨tail, htail⟩
    -- where `c` begins, it is read too, with what prolongs its literal
    obtain ⟨more, rest, -, hread'⟩ := hc.exists_read?_append tail
    rw [htail, hread] at hread'
    obtain ⟨rfl, rfl⟩ := Prod.mk.inj (Option.some.inj hread')
    rw [Clause.spelling_literal_append, List.length_append]
    exact Nat.le_add_right _ _
  · intro hlongest
    obtain ⟨more, rest, hafter, hread⟩ := h.exists_read?_append after
    have hle := hlongest _ (Clause.wellFormed_of_read? hread) ⟨rest, Clause.spelling_append hread⟩
    rw [Clause.spelling_literal_append, List.length_append] at hle
    obtain rfl : more = [] := List.length_eq_zero_iff.mp (by omega)
    rw [List.nil_append] at hafter
    rwa [List.append_nil, ← hafter] at hread

/-- **A token is found where it stands.** -/
theorem Stands.scan_append (h : Stands before after t) :
    scan (t.spelling ++ after) = t :: scan after := by
  cases h with
  | openParen => exact scan_openParen after
  | closeParen => exact scan_closeParen after
  | @connective k _ hback => exact scan_connective_append k ((word_wordBorder_iff _ k).mp hback)
  | @condition clause hwf hattr hlongest =>
    rw [spelling_condition]
    exact scan_of_read? ((read?_eq_some_iff_longest hwf).mpr hlongest) hattr

/-- Whatever can stand in a bare literal prolongs a literal that ends in a word, for such a literal
has no quotes. -/
theorem isLiteral_concat {literal : List Char} {c : Char} (h : Clause.IsLiteral literal)
    (hends : endsInWord literal = true) (hc : Clause.isBareChar c = true) :
    Clause.IsLiteral (literal ++ [c]) := by
  cases h with
  | @quoted q body hq _ =>
    rw [← List.cons_append, endsInWord_concat] at hends
    rcases hq with rfl | rfl <;> exact absurd hends (by decide)
  | @bare sign run hsign hne hrun =>
    rw [List.append_assoc]
    refine .bare hsign (by simp) (List.forall_mem_append.mpr ⟨hrun, ?_⟩)
    simpa using hc

/-- No word goes on behind the longest clause at a place. -/
theorem parted_of_longest {clause : Clause} (h : clause.WellFormed)
    (hlongest : Longest clause after) : Parted (before ++ clause.spelling) after := by
  cases hends : endsInWord clause.literal with
  | false =>
    left
    have hne : clause.literal ≠ [] := by
      obtain ⟨cs, c, hcs, -⟩ := h.literal_isLiteral.exists_concat
      simp [hcs]
    have hsplit : before ++ clause.spelling = (before ++ (clause.attr ++ clause.gapBefore ++
        clause.comparator.symbol :: clause.gapAfter)) ++ clause.literal := by
      simp [Clause.spelling]
    rw [hsplit, endsInWord_append hne, hends]
  | true =>
    refine parted_of_stops fun c hc => ?_
    by_contra hword
    have hbare : Clause.isBareChar c = true := by simp_all [Clause.isBareChar]
    obtain ⟨after, rfl⟩ := List.head?_eq_some_iff.mp hc
    -- the literal goes on with the word, and so does the clause
    have hle := hlongest { clause with literal := clause.literal ++ [c] }
      { h with literal_isLiteral := isLiteral_concat h.literal_isLiteral hends hbare }
      ⟨after, by simp [Clause.spelling_literal_append]⟩
    rw [Clause.spelling_literal_append, List.length_append, List.length_singleton] at hle
    omega

/-- No word goes on behind a token. -/
theorem Stands.parted_behind (h : Stands before after t) : Parted (before ++ t.spelling) after := by
  cases h with
  | openParen | closeParen => exact .inl (endsInWord_concat before _)
  | connective _ hback => exact parted_of_stops ((word_wordBorder_iff _ _).mp hback)
  | condition h _ hlongest =>
    rw [spelling_condition]
    exact parted_of_longest h hlongest

/-- No word goes on from a gap into the token behind it: a clause would begin in the gap. -/
theorem Stands.parted_front (h : Stands (before ++ gap) after t)
    (hgap : Gap before gap (t.spelling ++ after))
    (hfront : Parted before (gap ++ (t.spelling ++ after))) :
    Parted (before ++ gap) (t.spelling ++ after) := by
  cases h with
  | openParen | closeParen => exact .inr rfl
  | connective hborder _ => exact .inl ((wordBorder_word_iff _ _).mp hborder)
  | @condition clause hwf _ _ =>
    rw [spelling_condition] at *
    rcases List.eq_nil_or_concat gap with rfl | ⟨front, c, rfl⟩
    · rwa [List.append_nil]
    · rw [List.concat_eq_append] at *
      cases hc : isWordChar c with
      | false => exact .inl (by rw [← List.append_assoc, endsInWord_concat, hc])
      | true =>
        have hw : ∀ x ∈ [c], isWordChar x = true := by simpa using hc
        refine absurd ⟨after, ?_⟩ (hgap.no_clause front [c] _ rfl (by simp) (hwf.word_append hw))
        rw [Clause.spelling_word_append, List.append_assoc]

/-- **A text is laid out in one way only**, namely as the tokens that are found in it. -/
theorem LaidOut.scan_append (h : LaidOut before cs after ts) (hfront : Parted before (cs ++ after))
    (hback : Parted (before ++ cs) after) : scan (cs ++ after) = ts ++ scan after := by
  induction h with
  | gap h => exact h.scan_append hfront hback
  | @token before gap cs after t ts hgap ht _ ih =>
    rw [List.append_assoc, List.append_assoc] at hfront ⊢
    rw [hgap.scan_append hfront (ht.parted_front hgap hfront), ht.scan_append, ih ht.parted_behind]
    · rfl
    · rwa [List.append_assoc, List.append_assoc]

/-! ## Laying a text out -/

/-- A character that is passed over is part of a gap. -/
theorem Gap.cons {c : Char} (ho : c ≠ '(') (hcl : c ≠ ')') (hc : isWordChar c = false)
    (h : Gap (before ++ [c]) gap after) : Gap before (c :: gap) after where
  no_openParen := by simp [h.no_openParen, ho.symm]
  no_closeParen := by simp [h.no_closeParen, hcl.symm]
  no_connective x k y hgap := by
    cases x with
    | nil =>
      have hbegins := beginsWithWord_append (word_ne_nil k) (isWordChar_of_mem_word k) y
      rw [List.nil_append] at hgap
      rw [← hgap] at hbegins
      exact absurd hc (by simpa [beginsWithWord] using hbegins)
    | cons d x =>
      obtain ⟨rfl, hgap'⟩ := List.cons.inj hgap
      rw [List.append_cons before]
      exact h.no_connective x k y hgap'
  no_clause x y clause hgap hne hwf := by
    cases x with
    | nil =>
      rintro ⟨tail, htail⟩
      obtain ⟨d, ds, hspelling, hd⟩ := hwf.exists_spelling_cons
      rw [← List.nil_append y, ← hgap, hspelling] at htail
      obtain ⟨rfl, -⟩ := List.cons.inj htail
      exact absurd hc (by simp [hd])
    | cons d x =>
      obtain ⟨rfl, hgap'⟩ := List.cons.inj hgap
      exact h.no_clause x y clause hgap' hne hwf

/-- **A word is part of a gap** if it is no connective and no clause begins with it. -/
theorem Gap.word_append {w : List Char} (hw : ∀ c ∈ w, isWordChar c)
    (hword : Connective.ofWord? (String.ofList w) = none)
    (hstops : Stops isWordChar (gap ++ after)) (hread : Clause.read? (w ++ (gap ++ after)) = none)
    (h : Gap (before ++ w) gap after) : Gap before (w ++ gap) after where
  no_openParen hmem := (List.mem_append.mp hmem).elim
    (fun hm => (ne_paren_of_isWordChar (hw _ hm)).1 rfl) h.no_openParen
  no_closeParen hmem := (List.mem_append.mp hmem).elim
    (fun hm => (ne_paren_of_isWordChar (hw _ hm)).2 rfl) h.no_closeParen
  no_connective x k y hgap := by
    rcases List.append_eq_append_iff.mp hgap with ⟨x, rfl, hgap'⟩ | ⟨w', hsplit, hy⟩
    · rw [← List.append_assoc before]
      exact h.no_connective x k y hgap'
    · rintro ⟨hfront, hback⟩
      rw [wordBorder_word_iff] at hfront
      rw [word_wordBorder_iff] at hback
      rcases eq_or_ne x [] with rfl | hne
      · -- the connective is the whole word
        have htake := takeWhile_append_of_stops hw hstops
        rw [hsplit, List.nil_append, ← List.append_assoc, ← hy, List.append_assoc,
          takeWhile_append_of_stops (isWordChar_of_mem_word k) hback] at htake
        rw [hsplit, List.nil_append, ← htake, String.ofList_toList,
          Connective.ofWord?_word] at hword
        cases hword
      · -- a word ends in front of it, namely the beginning of this one
        have hx : ∀ c ∈ x, isWordChar c := fun c hc =>
          hw c (by rw [hsplit]; exact List.mem_append_left _ hc)
        rw [endsInWord_append hne, endsInWord_of_word hne hx] at hfront
        cases hfront
  no_clause x y clause hgap hne hwf := by
    rcases List.append_eq_append_iff.mp hgap with ⟨x, rfl, hgap'⟩ | ⟨w', rfl, rfl⟩
    · exact h.no_clause x y clause hgap' hne hwf
    · -- with the beginning of the word in front, it would be a clause that begins with the word
      rintro ⟨tail, htail⟩
      have hx : ∀ c ∈ x, isWordChar c := fun c hc => hw c (List.mem_append_left _ hc)
      obtain ⟨more, rest, -, hsome⟩ := (hwf.word_append hx).exists_read?_append tail
      rw [Clause.spelling_word_append, List.append_assoc, htail, List.append_assoc,
        ← List.append_assoc x, hread] at hsome
      cases hsome

/-- What is passed over belongs to the first gap. -/
theorem LaidOut.skip {run : List Char} (h : LaidOut (before ++ run) cs after ts)
    (hgap : ∀ gap rest, gap ++ rest = cs ++ after → Gap (before ++ run) gap rest →
      Gap before (run ++ gap) rest) : LaidOut before (run ++ cs) after ts := by
  cases h with
  | gap h => exact .gap (hgap _ _ rfl h)
  | @token _ gap cs _ t ts hg ht hrest =>
    rw [← List.append_assoc run]
    rw [List.append_assoc before] at ht hrest
    exact .token (hgap _ _ (by simp) hg) ht hrest

/-- A clause that is read stands where it is read, if the word there is no connective. -/
theorem Stands.of_read? (before : List Char) {cs rest : List Char} {clause : Clause}
    (hread : Clause.read? cs = some (clause, rest))
    (hword : Connective.ofWord? (String.ofList (cs.takeWhile isWordChar)) = none) :
    Stands before rest (.condition (String.ofList clause.spelling)) := by
  have hwf := Clause.wellFormed_of_read? hread
  have hcs := Clause.spelling_append hread
  rw [← hcs, hwf.takeWhile_isWordChar] at hword
  rw [← hcs] at hread
  exact .condition hwf hword ((read?_eq_some_iff_longest hwf).mp hread)

/-- A text may begin with a token. -/
theorem LaidOut.cons (ht : Stands before (cs ++ after) t)
    (h : LaidOut (before ++ t.spelling) cs after ts) :
    LaidOut before (t.spelling ++ cs) after (t :: ts) := by
  have h' : LaidOut before ([] ++ (t.spelling ++ cs)) after (t :: ts) :=
    .token (gap_nil _ _) (by rwa [List.append_nil]) (by rwa [List.append_nil])
  exact h'

/-- **A text is laid out as the tokens that are found in it**, if no word reaches into it. -/
theorem laidOut_scan {before : List Char} (cs : List Char) (h : Parted before cs) :
    LaidOut before cs [] (scan cs) := by
  fun_induction scan cs generalizing before with
  | case1 => exact .gap (gap_nil _ _)
  | case2 tail ih =>
    exact .cons (t := .openParen) .openParen (ih (.inl (endsInWord_concat before _)))
  | case3 tail _ ih =>
    exact .cons (t := .closeParen) .closeParen (ih (.inl (endsInWord_concat before _)))
  | case4 c tail _ _ hc k hk ih =>
    have hsplit := word_append_dropWhile hc tail
    rw [eq_word_of_ofWord? hk] at hsplit
    have hstops := stops_dropWhile isWordChar tail
    rw [← hsplit] at h ⊢
    have hends := h.endsInWord_eq (word_ne_nil k) (isWordChar_of_mem_word k)
    refine .cons (t := .connective k) (.connective ?_ ?_) (ih (parted_of_stops hstops))
    · exact (wordBorder_word_iff k _).mpr hends
    · exact (word_wordBorder_iff _ k).mpr (by rwa [List.append_nil])
  | case5 c tail _ _ _ hword clause rest hread _ ih =>
    have hstands := Stands.of_read? before hread hword
    have hcs := Clause.spelling_append hread
    rw [← spelling_condition clause.spelling] at hcs
    rw [← hcs]
    exact .cons (by rwa [List.append_nil]) (ih hstands.parted_behind)
  | case6 c tail _ _ hc hword hread ih =>
    have hsplit := word_append_dropWhile hc tail
    have hstops := stops_dropWhile isWordChar tail
    rw [← hsplit] at hread ⊢
    refine LaidOut.skip (ih (parted_of_stops hstops)) fun gap rest hrest hgap => ?_
    rw [List.append_nil] at hrest
    rw [← hrest] at hread hstops
    exact hgap.word_append (fun x hx => List.mem_takeWhile_imp hx) hword hstops hread
  | case7 c tail ho hcl hc ih =>
    have hc' : isWordChar c = false := by simpa using hc
    have htail : LaidOut (before ++ [c]) tail [] (scan tail) :=
      ih (.inl (by rw [endsInWord_concat, hc']))
    exact htail.skip fun gap rest _ hgap => hgap.cons ho hcl hc'

/-- **A text is laid out as the tokens that are found in it, and in no other way.** -/
theorem laidOut_iff {cs : List Char} : LaidOut [] cs [] ts ↔ scan cs = ts := by
  constructor
  · intro h
    have hscan := h.scan_append (.inl rfl) (.inr rfl)
    simpa using hscan
  · rintro rfl
    exact laidOut_scan cs (.inl rfl)

/-- No token is found in a text exactly if it is a gap. -/
theorem gap_iff {cs : List Char} : Gap [] cs [] ↔ scan cs = [] := by
  rw [← laidOut_iff]
  constructor
  · exact .gap
  · intro h
    cases h with
    | gap h => exact h

end Token

end Rulebook
