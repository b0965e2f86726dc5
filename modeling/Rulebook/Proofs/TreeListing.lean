import Rulebook.Assembly
import Rulebook.Proofs.Stages

/-! # Post-order listings and the trees built from them

A tree is listed in post-order: left operand, right operand, connective (`Tree.postorder`).
Building reads a list with a stack of finished trees, and reading the listing of a tree pushes that
very tree (`assembleFrom_postorder`), so a tree is built from its listing (`ofPostorder_postorder`).

It is built from no other list (`ofPostorder_eq_ok_iff`): the stack, read from the bottom, always
lists the tokens read so far.  So its leaves are the conditions of the list in their order
(`leaves_of_ofPostorder`).  Every list that is no listing is answered with an error of one kind
(`kind_of_ofPostorder`).
-/
namespace Rulebook

namespace Token

/-- The texts of the conditions among some tokens, in their order. -/
def conditions (ts : List Token) : List String :=
  ts.filterMap fun
    | .condition text => some text
    | _ => none

@[simp] theorem conditions_nil : conditions [] = [] := rfl

@[simp] theorem conditions_cons_condition (text : String) (ts : List Token) :
    conditions (.condition text :: ts) = text :: conditions ts := rfl

@[simp] theorem conditions_cons_connective (c : Connective) (ts : List Token) :
    conditions (.connective c :: ts) = conditions ts := rfl

@[simp] theorem conditions_cons_openParen (ts : List Token) :
    conditions (.openParen :: ts) = conditions ts := rfl

@[simp] theorem conditions_cons_closeParen (ts : List Token) :
    conditions (.closeParen :: ts) = conditions ts := rfl

@[simp] theorem conditions_append (ts us : List Token) :
    conditions (ts ++ us) = conditions ts ++ conditions us :=
  List.filterMap_append

theorem mem_conditions_iff {text : String} {ts : List Token} :
    text ∈ conditions ts ↔ .condition text ∈ ts := by
  induction ts with
  | nil => simp
  | cons t ts ih => cases t <;> simp [ih]

/-- The connectives among some tokens, in their order. -/
def connectives (ts : List Token) : List Connective :=
  ts.filterMap fun
    | .connective c => some c
    | _ => none

@[simp] theorem connectives_nil : connectives [] = [] := rfl

@[simp] theorem connectives_cons_condition (text : String) (ts : List Token) :
    connectives (.condition text :: ts) = connectives ts := rfl

@[simp] theorem connectives_cons_connective (c : Connective) (ts : List Token) :
    connectives (.connective c :: ts) = c :: connectives ts := rfl

@[simp] theorem connectives_append (ts us : List Token) :
    connectives (ts ++ us) = connectives ts ++ connectives us :=
  List.filterMap_append

end Token

namespace Tree

/-! ## Leaves -/

theorem leavesOnto_eq (t : Tree) (rest : List String) : t.leavesOnto rest = t.leaves ++ rest := by
  induction t generalizing rest with
  | leaf text => rfl
  | node c left right ihl ihr =>
    rw [leaves, leavesOnto, leavesOnto, ihr rest, ihr [], ihl, ihl (right.leaves ++ [])]
    simp

@[simp] theorem leaves_leaf (text : String) : (leaf text).leaves = [text] := rfl

@[simp] theorem leaves_node (c : Connective) (left right : Tree) :
    (node c left right).leaves = left.leaves ++ right.leaves := by
  rw [leaves, leavesOnto, leavesOnto_eq]
  rfl

/-! ## Listings -/

/-- The post-order listing of a tree: left operand, right operand, connective. -/
def postorder : Tree → List Token
  | .leaf text => [.condition text]
  | .node c left right => left.postorder ++ right.postorder ++ [.connective c]

/-- Reading the listing of a tree pushes the tree. -/
theorem assembleFrom_postorder (t : Tree) (stack : List Tree) (rest : List Token) :
    assembleFrom stack (t.postorder ++ rest) = assembleFrom (t :: stack) rest := by
  induction t generalizing stack rest with
  | leaf text => rfl
  | node c left right ihl ihr =>
    rw [postorder, List.append_assoc, List.append_assoc, ihl, ihr]
    rfl

/-- **A tree is built from its listing.** -/
theorem ofPostorder_postorder (t : Tree) : ofPostorder t.postorder = .ok t := by
  have h := assembleFrom_postorder t [] []
  rw [List.append_nil] at h
  rw [ofPostorder, h]
  rfl

theorem conditions_postorder (t : Tree) : Token.conditions t.postorder = t.leaves := by
  induction t with
  | leaf text => rfl
  | node c left right ihl ihr => simp [postorder, ihl, ihr]

/-- The listing of a tree has one condition more than connectives. -/
theorem length_conditions_postorder (t : Tree) :
    (Token.conditions t.postorder).length = (Token.connectives t.postorder).length + 1 := by
  induction t with
  | leaf text => rfl
  | node c left right ihl ihr =>
    simp [postorder, ihl, ihr]
    omega

/-! ## What trees are built from -/

/-- The listings of finished trees, given latest first, in the order of the tokens read. -/
def stackListing (stack : List Tree) : List Token := stack.reverse.flatMap postorder

@[simp] theorem stackListing_cons (t : Tree) (stack : List Tree) :
    stackListing (t :: stack) = stackListing stack ++ t.postorder := by
  simp [stackListing]

/-- One token is added to what the trees on the stack list. -/
theorem stackListing_assembleStep {stack stack' : List Tree} {t : Token}
    (h : assembleStep stack t = .ok stack') : stackListing stack' = stackListing stack ++ [t] := by
  cases t with
  | openParen => cases h
  | closeParen => cases h
  | condition text =>
    obtain rfl := Except.ok.inj h
    simp [postorder]
  | connective c =>
    -- with fewer than two operands on the stack the step fails
    match stack, h with
    | right :: left :: rest, h =>
      obtain rfl := Except.ok.inj h
      simp [postorder]

theorem stackListing_assembleFrom {stack stack' : List Tree} {ts : List Token}
    (h : assembleFrom stack ts = .ok stack') : stackListing stack' = stackListing stack ++ ts := by
  induction ts generalizing stack with
  | nil =>
    obtain rfl := Except.ok.inj h
    simp
  | cons t ts ih =>
    obtain ⟨next, hs, h⟩ := except_bind_eq_ok_iff.mp h
    rw [ih h, stackListing_assembleStep hs, List.append_assoc]
    rfl

/-- **A tree is built from its listing and from nothing else.** -/
theorem ofPostorder_eq_ok_iff {ts : List Token} {t : Tree} :
    ofPostorder ts = .ok t ↔ ts = t.postorder := by
  constructor
  · intro h
    unfold ofPostorder at h
    split at h
    · cases h
    · cases h
    · rename_i root hs
      obtain rfl := Except.ok.inj h
      simpa [stackListing] using (stackListing_assembleFrom hs).symm
    · cases h
  · rintro rfl
    exact ofPostorder_postorder t

/-- **The leaves of a built tree are the conditions of its list, in their order.** -/
theorem leaves_of_ofPostorder {ts : List Token} {t : Tree} (h : ofPostorder ts = .ok t) :
    t.leaves = Token.conditions ts := by
  rw [ofPostorder_eq_ok_iff.mp h, conditions_postorder]

/-! ## Lists that are no listing -/

theorem kind_of_assembleStep {stack : List Tree} {t : Token} {e : RuleError}
    (h : assembleStep stack t = .error e) : e.kind = .malformedExpression := by
  unfold assembleStep at h
  split at h
  · cases h
  · split at h
    · cases h
    · cases h
      rfl
  · cases h
    rfl
  · cases h
    rfl

theorem kind_of_assembleFrom {stack : List Tree} {ts : List Token} {e : RuleError}
    (h : assembleFrom stack ts = .error e) : e.kind = .malformedExpression := by
  induction ts generalizing stack with
  | nil => cases h
  | cons t ts ih =>
    rw [assembleFrom] at h
    cases hs : assembleStep stack t with
    | error e' =>
      rw [hs] at h
      cases h
      exact kind_of_assembleStep hs
    | ok next =>
      rw [hs] at h
      exact ih h

/-- Whatever keeps a list from being the listing of a tree, the expression is called malformed. -/
theorem kind_of_ofPostorder {ts : List Token} {e : RuleError} (h : ofPostorder ts = .error e) :
    e.kind = .malformedExpression := by
  unfold ofPostorder at h
  split at h
  · rename_i e' hs
    cases h
    exact kind_of_assembleFrom hs
  · cases h
    rfl
  · cases h
  · cases h
    rfl

end Tree

end Rulebook
