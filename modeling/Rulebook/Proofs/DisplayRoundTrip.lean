import Rulebook.Proofs.ReadableTrees

/-! # The infix form of a tree compiles back to the tree

The stack of `Tree.display` writes every tree as recursion does, whatever is behind it in the stack
(`toList_writePieces`), so the infix form of a node is made of those of its operands
(`display_node`).  It puts every join in parentheses, so its tokens are those of one derivation of
the infix grammar, whatever the connectives (`Tree.derivation`).  The scanner finds exactly these
tokens (`scan_display_append`): a leaf is always followed by a blank, a parenthesis or nothing, none
of which can prolong its literal, and a literal in quotes is taken whole, whatever stands in it.
That the tokens compile to the tree is then a fact about derivations.

Main statement: the infix form of a readable tree compiles, under either policy, to the tree without
the blanks around its leaves, and that of a compiled tree to the very tree (`compile_display`).
-/
namespace Rulebook.Tree

open Token

/-! ## The infix form -/

/-- The infix form by recursion on the tree. -/
def infixForm : Tree → String
  | .leaf text => text
  | .node c left right =>
    "(" ++ left.infixForm ++ " " ++ c.word ++ " " ++ right.infixForm ++ ")"

/-- What a piece comes to. -/
def Piece.form : Piece → String
  | .tree t => t.infixForm
  | .text s => s

/-- **The stack writes what its pieces come to**, one after the other. -/
theorem toList_writePieces (pieces : List Piece) (written : String) :
    (writePieces pieces written).toList =
      written.toList ++ pieces.flatMap fun p => p.form.toList := by
  fun_induction writePieces pieces written with
  | case1 written => rw [List.flatMap_nil, List.append_nil]
  | case2 written s pieces ih =>
    rw [ih, List.flatMap_cons, String.toList_append, List.append_assoc]
    rfl
  | case3 written text pieces ih =>
    rw [ih, List.flatMap_cons, String.toList_append, List.append_assoc]
    rfl
  | case4 written c left right pieces ih =>
    rw [ih]
    simp [Piece.form, infixForm]

theorem display_eq_infixForm (t : Tree) : t.display = t.infixForm := by
  rw [← String.toList_inj, display, toList_writePieces]
  simp [Piece.form]

@[simp] theorem display_leaf (text : String) : (leaf text).display = text :=
  display_eq_infixForm _

theorem display_node (c : Connective) (left right : Tree) : (node c left right).display =
    "(" ++ left.display ++ " " ++ c.word ++ " " ++ right.display ++ ")" := by
  simp only [display_eq_infixForm, infixForm]

/-! ## Its tokens -/

/-- The derivation that the infix form of a tree follows. -/
def derivation : Tree → Infix.Derivation .factor
  | .leaf text => .condition text
  | .node .and left right => .group (.ofTerm (.and (.ofFactor left.derivation) right.derivation))
  | .node .or left right =>
    .group (.or (.ofTerm (.ofFactor left.derivation)) (.ofFactor right.derivation))

theorem tree_derivation (t : Tree) : t.derivation.tree = t := by
  induction t with
  | leaf text => rfl
  | node c left right ihl ihr =>
    cases c <;> simp only [derivation, Infix.Derivation.tree, ihl, ihr]

theorem tokens_derivation_node (c : Connective) (left right : Tree) :
    (node c left right).derivation.tokens =
      .openParen :: (left.derivation.tokens ++ .connective c :: right.derivation.tokens ++
        [.closeParen]) := by
  cases c <;> rfl

/-- A readable text is found as one condition, without the blanks around it. -/
theorem scan_readable_append {text : String} (h : Condition.Readable text) {rest : List Char}
    (hr : Stops Clause.isBareChar rest) :
    scan (text.toList ++ rest) = .condition (trimmed text) :: scan rest := by
  obtain ⟨before, clause, after, ht, hb, ha, hwf, hattr⟩ := Condition.readable_iff.mp h
  have hafter := stops_isBareChar_append ha hr
  rw [trimmed, ht, hwf.trimBlank_append hb ha, List.append_assoc, scan_blanks_append hb,
    List.append_assoc, scan_clause_append hwf hattr hafter, scan_blanks_append ha]

theorem toList_display_node (c : Connective) (left right : Tree) (rest : List Char) :
    (node c left right).display.toList ++ rest =
      '(' :: (left.display.toList ++ ' ' :: (c.word.toList ++ ' ' :: (right.display.toList ++
        ')' :: rest))) := by
  simp [display_node]

/-- **The tokens of the infix form** are those of the derivation it follows. -/
theorem scan_display_append {t : Tree} (h : t.Readable) {rest : List Char}
    (hr : Stops Clause.isBareChar rest) :
    scan (t.display.toList ++ rest) = t.trimLeaves.derivation.tokens ++ scan rest := by
  induction t generalizing rest with
  | leaf text =>
    rw [display_leaf]
    exact scan_readable_append (readable_leaf.mp h) hr
  | node c left right ihl ihr =>
    obtain ⟨hl, hrt⟩ := readable_node.mp h
    -- every border of a leaf is a blank or a parenthesis, and none of these is a bare character
    have hspace : ∀ c ∈ [' '], isBlank c := List.all_eq_true.mp (by decide)
    have hblank : ∀ cs, scan (' ' :: cs) = scan cs := scan_blanks_append hspace
    rw [toList_display_node, scan_openParen, ihl hl (stops_cons.mpr (by decide)), hblank,
      scan_connective_append c (stops_cons.mpr (by decide)), hblank,
      ihr hrt (stops_cons.mpr (by decide)), scan_closeParen, trimLeaves, tokens_derivation_node]
    simp

/-- The infix form of a readable tree compiles to the tree without the blanks around its leaves. -/
theorem compile_display_of_readable {t : Tree} (h : t.Readable) (policy : ParenPolicy) :
    (compile policy t.display).result = .ok t.trimLeaves := by
  have hs : scan t.display.toList =
      (Infix.Derivation.ofTerm (.ofFactor t.trimLeaves.derivation)).tokens := by
    have hd := scan_display_append h (stops_nil Clause.isBareChar)
    rw [List.append_nil, scan_nil, List.append_nil] at hd
    exact hd
  rw [compile_of_scan_eq hs]
  exact congrArg Except.ok (tree_derivation t.trimLeaves)

/-- **The infix form compiles back**, under either policy: for a tree whose leaves say conditions on
attributes other than the words of connectives, to the tree without the blanks around its leaves,
and for a tree that comes out of the compiler, to the tree itself.  Trees joined from trees of the
first kind are of the first kind, and all trees of the second kind are. -/
theorem compile_display :
    (∀ t : Tree, t.Readable → ∀ policy, (compile policy t.display).result = .ok t.trimLeaves) ∧
      (∀ (c : Connective) (ts : List Tree) (t : Tree), (∀ x ∈ ts, x.Readable) →
        (combine c ts).result = .ok (some t) → t.Readable) ∧
      ∀ t : Tree, t.Compiled → t.Readable ∧ t.trimLeaves = t ∧
        ∀ policy, (compile policy t.display).result = .ok t := by
  refine ⟨fun t h policy => compile_display_of_readable h policy, ?_, ?_⟩
  · intro c ts t hts h
    exact forall_mem_leaves_of_combine h hts
  · intro t h
    refine ⟨h.readable, h.trimLeaves_eq, fun policy => ?_⟩
    rw [compile_display_of_readable h.readable, h.trimLeaves_eq]

/-- A tree whose leaves hold parentheses, connectives, comparators and line feeds in quotes, and
have blanks around them. -/
def quotedLeaves : Tree :=
  .node .or (.leaf " name = 'x) AND (y > 1\n'\t")
    (.node .and (.leaf "é<-1.5") (.leaf "b=\"OR\" "))

theorem compile_display_quotedLeaves :
    quotedLeaves.Readable ∧
      (compile .drain quotedLeaves.display).result =
        .ok (.node .or (.leaf "name = 'x) AND (y > 1\n'")
          (.node .and (.leaf "é<-1.5") (.leaf "b=\"OR\""))) ∧
      (∃ t, (combine .and [quotedLeaves, .leaf "c > 2"]).result = .ok (some t) ∧ t.Readable) ∧
      ∃ t, (compile .drain "a > 1e-5) OR b = '(' c").result = .ok t ∧
        (compile .reject t.display).result = .ok t := by
  have h : quotedLeaves.Readable := by decide +kernel
  have hc : (leaf "c > 2").Readable := by decide +kernel
  have ht : (compile .drain "a > 1e-5) OR b = '(' c").result =
      .ok (.node .or (.leaf "a > 1e") (.leaf "b = '('")) := by cbv
  refine ⟨h, ?_, ⟨_, rfl, ?_⟩, ⟨_, ht, ?_⟩⟩
  · rw [compile_display.1 quotedLeaves h .drain]
    exact congrArg Except.ok (by decide +kernel)
  · exact compile_display.2.1 .and [quotedLeaves, .leaf "c > 2"] _ (by simp [h, hc]) rfl
  · exact (compile_display.2.2 _ (.rule ht)).2.2 .reject

end Rulebook.Tree
