import Rulebook.Proofs.ClauseGrammar
import Rulebook.Token

/-! # Scanning a text for tokens

The scanner goes over a text once from the left.  What stands at the front decides the first step:
blanks are passed over (`scan_blanks_append`), a parenthesis is a token (`scan_openParen`,
`scan_closeParen`), the word of a connective is a token where the word ends
(`scan_connective_append`), and a well-formed clause whose attribute is no connective is a token as
a whole, where its literal ends (`scan_clause_append`).  Another word is passed over
(`scan_word_append`).

Conversely, every condition that the scanner finds in any text is the spelling of such a clause
(`exists_clause_of_mem_scan`): nothing that it cuts out needs the text around it to be read.
-/
namespace Rulebook.Token

@[simp] theorem scan_nil : scan [] = [] := by rw [scan]

@[simp] theorem scan_openParen (cs : List Char) : scan ('(' :: cs) = .openParen :: scan cs := by
  rw [scan, if_pos rfl]

@[simp] theorem scan_closeParen (cs : List Char) : scan (')' :: cs) = .closeParen :: scan cs := by
  rw [scan, if_neg (by decide), if_pos rfl]

/-- A character that is neither a parenthesis nor part of a word is passed over. -/
theorem scan_cons_of_skipped {c : Char} (ho : c ≠ '(') (hc : c ≠ ')') (hw : isWordChar c = false)
    (cs : List Char) : scan (c :: cs) = scan cs := by
  rw [scan, if_neg ho, if_neg hc, if_neg (by simp [hw])]

theorem scan_blanks_append {blanks : List Char} (h : ∀ c ∈ blanks, isBlank c) (cs : List Char) :
    scan (blanks ++ cs) = scan cs := by
  induction blanks with
  | nil => rfl
  | cons c blanks ih =>
    have hc : isBlank c = true := h c List.mem_cons_self
    have ho : c ≠ '(' := ne_of_class hc (by decide)
    have hcl : c ≠ ')' := ne_of_class hc (by decide)
    rw [List.cons_append, scan_cons_of_skipped ho hcl (isWordChar_of_isBlank hc)]
    exact ih fun x hx => h x (List.mem_cons_of_mem _ hx)

/-- No parenthesis is part of a word. -/
theorem ne_paren_of_isWordChar {c : Char} (h : isWordChar c = true) : c ≠ '(' ∧ c ≠ ')' :=
  ⟨ne_of_class h (by decide), ne_of_class h (by decide)⟩

/-- What becomes of a word, if it is no connective then by what can be read at its beginning. -/
theorem scan_word {c : Char} (hw : isWordChar c = true) (cs : List Char) :
    scan (c :: cs) =
      match Connective.ofWord? (String.ofList ((c :: cs).takeWhile isWordChar)) with
      | some k => .connective k :: scan (cs.dropWhile isWordChar)
      | none =>
        match Clause.read? (c :: cs) with
        | some (clause, rest) => .condition (String.ofList clause.spelling) :: scan rest
        | none => scan (cs.dropWhile isWordChar) := by
  obtain ⟨ho, hc⟩ := ne_paren_of_isWordChar hw
  rw [scan, if_neg ho, if_neg hc, if_pos hw]
  cases Connective.ofWord? (String.ofList ((c :: cs).takeWhile isWordChar)) with
  | some k => rfl
  | none =>
    simp only
    split <;> rename_i h <;> simp only [h]

theorem isWordChar_of_mem_word (k : Connective) : ∀ c ∈ k.word.toList, isWordChar c = true := by
  cases k <;> exact List.all_eq_true.mp (by decide)

/-- The word of a connective is a token where no word character follows. -/
theorem scan_connective_append (k : Connective) {rest : List Char} (hr : Stops isWordChar rest) :
    scan (k.word.toList ++ rest) = .connective k :: scan rest := by
  have htake := takeWhile_append_of_stops (isWordChar_of_mem_word k) hr
  have hdrop := dropWhile_append_of_stops (isWordChar_of_mem_word k) hr
  cases hk : k.word.toList with
  | nil => cases k <;> exact absurd hk (by decide)
  | cons c cs =>
    have hmem : c ∈ k.word.toList := by
      rw [hk]
      exact List.mem_cons_self
    have hc : isWordChar c = true := isWordChar_of_mem_word k c hmem
    rw [hk, List.cons_append] at htake hdrop
    rw [List.dropWhile_cons_of_pos hc] at hdrop
    rw [List.cons_append, scan_word hc, htake, ← hk, String.ofList_toList,
      Connective.ofWord?_word, hdrop]

/-- A word that is no connective and begins no clause is passed over. -/
theorem scan_word_append {attr rest : List Char} (hne : attr ≠ [])
    (hattr : ∀ c ∈ attr, isWordChar c) (hword : Connective.ofWord? (String.ofList attr) = none)
    (hrest : Stops isWordChar rest) (hread : Clause.read? (attr ++ rest) = none) :
    scan (attr ++ rest) = scan rest := by
  have htake := takeWhile_append_of_stops hattr hrest
  have hdrop := dropWhile_append_of_stops hattr hrest
  cases attr with
  | nil => exact absurd rfl hne
  | cons c cs =>
    have hc : isWordChar c = true := hattr c List.mem_cons_self
    rw [List.cons_append, List.dropWhile_cons_of_pos hc] at hdrop
    rw [List.cons_append] at htake hread ⊢
    rw [scan_word hc, htake, hword, hread, hdrop]

/-- A clause that is read off a text is a token as a whole, if its attribute is no connective. -/
theorem scan_of_read? {cs rest : List Char} {clause : Clause}
    (h : Clause.read? cs = some (clause, rest))
    (ha : Connective.ofWord? (String.ofList clause.attr) = none) :
    scan cs = .condition (String.ofList clause.spelling) :: scan rest := by
  have hwf := Clause.wellFormed_of_read? h
  have hcs := Clause.spelling_append h
  have htake := hwf.takeWhile_isWordChar rest
  obtain ⟨c, tail, hspelling, hc⟩ := hwf.exists_spelling_cons
  rw [hcs] at htake
  rw [hspelling, List.cons_append] at hcs
  subst hcs
  rw [scan_word hc, htake, ha, h]

/-- A clause is a token as a whole, if its attribute is no connective and what follows cannot
prolong its literal. -/
theorem scan_clause_append {clause : Clause} (h : clause.WellFormed)
    (ha : Connective.ofWord? (String.ofList clause.attr) = none) {rest : List Char}
    (hr : Stops Clause.isBareChar rest) :
    scan (clause.spelling ++ rest) = .condition (String.ofList clause.spelling) :: scan rest :=
  scan_of_read? (h.read?_spelling_append hr) ha

/-- **Every condition found in a text is the spelling of a well-formed clause** whose attribute is
no connective. -/
theorem exists_clause_of_mem_scan {text : String} {cs : List Char}
    (h : .condition text ∈ scan cs) :
    ∃ clause : Clause, clause.WellFormed ∧
      Connective.ofWord? (String.ofList clause.attr) = none ∧
        text = String.ofList clause.spelling := by
  fun_induction scan cs with
  | case1 => cases h
  | case2 tail ih | case3 tail _ ih =>
    rcases List.mem_cons.mp h with h | h
    · cases h
    · exact ih h
  | case4 c tail _ _ _ k _ ih =>
    rcases List.mem_cons.mp h with h | h
    · cases h
    · exact ih h
  | case5 c tail _ _ _ hword clause rest hread _ ih =>
    rcases List.mem_cons.mp h with h | h
    · -- the word that was compared with the connectives is the attribute of the clause
      have hwf := Clause.wellFormed_of_read? hread
      have hattr := hwf.takeWhile_isWordChar rest
      rw [Clause.spelling_append hread] at hattr
      rw [hattr] at hword
      obtain rfl := Token.condition.inj h
      exact ⟨clause, hwf, hword, rfl⟩
    · exact ih h
  | case6 _ _ _ _ _ _ _ ih => exact ih h
  | case7 _ _ _ _ _ ih => exact ih h

end Rulebook.Token
