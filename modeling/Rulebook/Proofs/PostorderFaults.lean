import Rulebook.Proofs.TreeListing

/-! # What is wrong with a list that is no listing

Reading the listings of several trees one after the other pushes these trees
(`assembleFrom_flatMap_postorder`), and no other list leaves them on the stack
(`assembleFrom_eq_ok_iff`).  So a list fails to be read where a first token stands that cannot be
read behind the listings in front of it (`assembleFrom_eq_error_iff`): a parenthesis, or a
connective behind fewer than two of them.  If there is no such token, the list is made of the
listings of some trees, and it is wrong if it is not made of one.

These are all the faults that a list can have (`Faulty`), and the builder answers each with an error
of its own (`ofPostorder_eq_error_iff`).
-/
namespace Rulebook.Tree

/-! ## Reading several listings -/

/-- Reading the listings of some trees pushes them, the last one on top. -/
theorem assembleFrom_flatMap_postorder (row : List Tree) (stack : List Tree) (rest : List Token) :
    assembleFrom stack (row.flatMap postorder ++ rest) =
      assembleFrom (row.reverse ++ stack) rest := by
  induction row generalizing stack with
  | nil => rfl
  | cons t row ih =>
    rw [List.flatMap_cons, List.append_assoc, assembleFrom_postorder, ih, List.reverse_cons,
      List.append_assoc, List.singleton_append]

/-- **The stack is the one way to cut what was read into listings.** -/
theorem assembleFrom_eq_ok_iff {ts : List Token} {stack : List Tree} :
    assembleFrom [] ts = .ok stack ↔ ts = stack.reverse.flatMap postorder := by
  constructor
  · intro h
    exact (stackListing_assembleFrom h).symm
  · rintro rfl
    have h := assembleFrom_flatMap_postorder stack.reverse [] []
    rw [List.append_nil, List.append_nil, List.reverse_reverse] at h
    exact h

/-- A token cannot be read if it is a connective without two operands, or a parenthesis. -/
theorem assembleStep_eq_error_iff {stack : List Tree} {t : Token} {e : RuleError} :
    assembleStep stack t = .error e ↔
      (∃ c, t = .connective c ∧ stack.length < 2 ∧ e = .lacksOperands c) ∨
        (t = .openParen ∨ t = .closeParen) ∧ e = .strayParenthesis := by
  cases t with
  | condition text => simp [assembleStep]
  | openParen => simp [assembleStep, eq_comm]
  | closeParen => simp [assembleStep, eq_comm]
  | connective c =>
    match stack with
    | [] => simp [assembleStep, eq_comm]
    | [_] => simp [assembleStep, eq_comm]
    | _ :: _ :: rest =>
      have hlen : ¬ rest.length + 1 + 1 < 2 := by omega
      simp [assembleStep, hlen]

/-- Where reading fails there is a first token that cannot be read. -/
theorem exists_step_of_assembleFrom {stack : List Tree} {ts : List Token} {e : RuleError}
    (h : assembleFrom stack ts = .error e) :
    ∃ before t rest stack', ts = before ++ t :: rest ∧ assembleFrom stack before = .ok stack' ∧
      assembleStep stack' t = .error e := by
  induction ts generalizing stack with
  | nil => cases h
  | cons t ts ih =>
    rw [assembleFrom] at h
    cases hs : assembleStep stack t with
    | error e' =>
      rw [hs] at h
      cases h
      exact ⟨[], t, ts, stack, rfl, rfl, hs⟩
    | ok next =>
      rw [hs] at h
      obtain ⟨before, u, rest, stack', rfl, hbefore, hu⟩ := ih h
      refine ⟨t :: before, u, rest, stack', rfl, ?_, hu⟩
      rw [assembleFrom, hs]
      exact hbefore

/-- **Where reading fails**: at the first token that cannot be read behind the listings of the trees
that are finished by then. -/
theorem assembleFrom_eq_error_iff {ts : List Token} {e : RuleError} :
    assembleFrom [] ts = .error e ↔ ∃ (row : List Tree) (t : Token) (rest : List Token),
      ts = row.flatMap postorder ++ t :: rest ∧ assembleStep row.reverse t = .error e := by
  constructor
  · intro h
    obtain ⟨before, t, rest, stack, rfl, hbefore, ht⟩ := exists_step_of_assembleFrom h
    refine ⟨stack.reverse, t, rest, ?_, ?_⟩
    · rw [assembleFrom_eq_ok_iff.mp hbefore]
    · rw [List.reverse_reverse]
      exact ht
  · rintro ⟨row, t, rest, rfl, ht⟩
    rw [assembleFrom_flatMap_postorder, List.append_nil, assembleFrom, ht]
    rfl

/-! ## The faults -/

/-- What can be wrong with a list, and the error that says so: it is empty, it lists several trees,
it has a connective behind fewer than two trees, or it has a parenthesis. -/
inductive Faulty : List Token → RuleError → Prop
  | empty : Faulty [] .emptyExpression
  | unjoined {row : List Tree} (hrow : 1 < row.length) :
    Faulty (row.flatMap postorder) (.unjoined (row.length - 1))
  | lacking {row : List Tree} (hrow : row.length < 2) (c : Connective) (rest : List Token) :
    Faulty (row.flatMap postorder ++ .connective c :: rest) (.lacksOperands c)
  | parenthesis (row : List Tree) {t : Token} (ht : t = .openParen ∨ t = .closeParen)
    (rest : List Token) : Faulty (row.flatMap postorder ++ t :: rest) .strayParenthesis

/-- Every fault makes the expression malformed. -/
theorem Faulty.kind {ts : List Token} {e : RuleError} (h : Faulty ts e) :
    e.kind = .malformedExpression := by
  cases h <;> rfl

/-- A list that cannot be read to its end has the fault of the token where reading fails. -/
theorem faulty_of_assembleFrom {ts : List Token} {e : RuleError}
    (h : assembleFrom [] ts = .error e) : Faulty ts e := by
  obtain ⟨row, t, rest, rfl, ht⟩ := assembleFrom_eq_error_iff.mp h
  rcases assembleStep_eq_error_iff.mp ht with ⟨c, rfl, hlen, rfl⟩ | ⟨hparen, rfl⟩
  · rw [List.length_reverse] at hlen
    exact .lacking hlen c rest
  · exact .parenthesis row hparen rest

/-- Several trees that are left are counted, all but one. -/
theorem ofPostorder_of_one_lt {ts : List Token} {stack : List Tree}
    (h : assembleFrom [] ts = .ok stack) (hlen : 1 < stack.length) :
    ofPostorder ts = .error (.unjoined (stack.length - 1)) := by
  rw [ofPostorder, h]
  cases stack with
  | nil => simp at hlen
  | cons t rest =>
    cases rest with
    | nil => simp at hlen
    | cons t' rest => rfl

/-- **What the builder answers a list that it builds no tree from.** -/
theorem ofPostorder_eq_error_iff {ts : List Token} {e : RuleError} :
    ofPostorder ts = .error e ↔ Faulty ts e := by
  constructor
  · intro h
    unfold ofPostorder at h
    split at h
    · rename_i e' hs
      obtain rfl := Except.error.inj h
      exact faulty_of_assembleFrom hs
    · rename_i hs
      obtain rfl := Except.error.inj h
      obtain rfl : ts = [] := assembleFrom_eq_ok_iff.mp hs
      exact .empty
    · cases h
    · rename_i t rest hrest hs
      obtain rfl := Except.error.inj h
      obtain rfl := assembleFrom_eq_ok_iff.mp hs
      have hlen : 1 < (t :: rest).reverse.length := by
        have hpos : 0 < rest.length := List.length_pos_iff.mpr hrest
        rw [List.length_reverse, List.length_cons]
        omega
      have hfaulty := Faulty.unjoined hlen
      rwa [List.length_reverse, List.length_cons, Nat.add_sub_cancel] at hfaulty
  · intro h
    cases h with
    | empty => rfl
    | @unjoined row hrow =>
      have hs : assembleFrom [] (row.flatMap postorder) = .ok row.reverse := by
        rw [assembleFrom_eq_ok_iff, List.reverse_reverse]
      rw [← List.length_reverse] at hrow ⊢
      exact ofPostorder_of_one_lt hs hrow
    | lacking hrow c rest =>
      have hs := assembleFrom_eq_error_iff.mpr ⟨_, _, rest, rfl,
        assembleStep_eq_error_iff.mpr (.inl ⟨c, rfl, by rwa [List.length_reverse], rfl⟩)⟩
      rw [ofPostorder, hs]
    | parenthesis row ht rest =>
      have hs := assembleFrom_eq_error_iff.mpr ⟨row, _, rest, rfl,
        assembleStep_eq_error_iff.mpr (.inr ⟨ht, rfl⟩)⟩
      rw [ofPostorder, hs]

/-- A listing holds conditions and connectives only. -/
theorem not_parenthesis_of_mem_postorder {t : Tree} {token : Token} (h : token ∈ t.postorder) :
    token ≠ .openParen ∧ token ≠ .closeParen := by
  induction t with
  | leaf text =>
    obtain rfl := List.mem_singleton.mp h
    simp
  | node c left right ihl ihr =>
    rw [postorder, List.mem_append, List.mem_append, List.mem_singleton] at h
    rcases h with (h | h) | rfl
    · exact ihl h
    · exact ihr h
    · simp

/-- **Building inverts listing.**  A list gives a tree exactly if it is the listing of that tree.
Every other list is a malformed expression, with the error of its fault; so is every list with a
parenthesis.  If all connectives find their operands and several trees are left, the error counts
all of them but one. -/
theorem ofPostorder_inverts_listing (ts : List Token) :
    (∀ t, ofPostorder ts = .ok t ↔ ts = t.postorder) ∧
    (∀ e, ofPostorder ts = .error e ↔ Faulty ts e) ∧
    ((¬ ∃ t : Tree, ts = t.postorder) →
      ∃ e, ofPostorder ts = .error e ∧ e.kind = .malformedExpression) ∧
    (.openParen ∈ ts ∨ .closeParen ∈ ts →
      ∃ e, ofPostorder ts = .error e ∧ e.kind = .malformedExpression) ∧
    ∀ row : List Tree, ts = row.flatMap postorder → 1 < row.length →
      ∃ e, ofPostorder ts = .error e ∧ e.kind = .malformedExpression ∧
        e.detail = toString (row.length - 1) ++ " operand(s) not joined by a connective" := by
  have hother : (¬ ∃ t : Tree, ts = t.postorder) →
      ∃ e, ofPostorder ts = .error e ∧ e.kind = .malformedExpression := by
    intro hnone
    cases h : ofPostorder ts with
    | ok t => exact absurd ⟨t, ofPostorder_eq_ok_iff.mp h⟩ hnone
    | error e => exact ⟨e, rfl, (ofPostorder_eq_error_iff.mp h).kind⟩
  refine ⟨fun _ => ofPostorder_eq_ok_iff, fun _ => ofPostorder_eq_error_iff, hother, ?_, ?_⟩
  · intro hparen
    refine hother ?_
    rintro ⟨t, rfl⟩
    rcases hparen with h | h
    · exact (not_parenthesis_of_mem_postorder h).1 rfl
    · exact (not_parenthesis_of_mem_postorder h).2 rfl
  · rintro row rfl hrow
    exact ⟨_, ofPostorder_eq_error_iff.mpr (.unjoined hrow), rfl, rfl⟩

/-- Three operands of which two are joined, so that one is left over; and the same list with a
parenthesis in place of its last condition, and with a connective in front. -/
theorem ofPostorder_inverts_listing_unjoined :
    (∃ e, ofPostorder [.condition "a > 1", .condition "b > 2", .connective .or,
        .condition "c > 3"] = .error e ∧ e.kind = .malformedExpression ∧
      e.detail = "1 operand(s) not joined by a connective") ∧
    (∃ e, ofPostorder [.condition "a > 1", .condition "b > 2", .connective .or, .closeParen] =
      .error e ∧ e.kind = .malformedExpression) ∧
    ∃ e, ofPostorder [.connective .and, .condition "a > 1", .condition "b > 2", .connective .or] =
      .error e ∧ e.kind = .malformedExpression := by
  refine ⟨?_, ?_, ?_⟩
  · exact (ofPostorder_inverts_listing _).2.2.2.2
      [.node .or (.leaf "a > 1") (.leaf "b > 2"), .leaf "c > 3"] rfl (by decide)
  · exact (ofPostorder_inverts_listing _).2.2.2.1 (by decide)
  · refine (ofPostorder_inverts_listing _).2.2.1 ?_
    rintro ⟨t, h⟩
    have hfaulty := (ofPostorder_inverts_listing t.postorder).2.1 (.lacksOperands .and)
    rw [← h] at hfaulty
    have herror := hfaulty.mpr (@Faulty.lacking [] (by decide) .and _)
    rw [((ofPostorder_inverts_listing _).1 t).mpr h] at herror
    cases herror

end Rulebook.Tree
