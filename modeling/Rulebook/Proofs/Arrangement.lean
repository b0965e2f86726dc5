import Rulebook.Proofs.InfixGrammar
import Rulebook.Proofs.TreeListing

/-! # Arrangements of operands

The reordering machine does not ask whether an operand or a connective is due.  What it reads is a
derivation of a wider grammar than that of infix expressions:

* expression: a term, or an expression `OR` a term;
* term: a place, or a term `AND` a place;
* place: any number of operands in a row, each a condition or an expression in parentheses.

A derivation of this grammar is an *arrangement*.  It has tokens and a listing, which is what the
machine makes of the tokens.  A place without operands lacks one, and a place with several has all
but one too many; what an arrangement lacks and has too many decides how many conditions its listing
has beside its connectives (`length_conditions_listing`).

The derivations of the infix grammar are arrangements that lack nothing and have nothing too many
(`Derivation.arrangement`), and every such arrangement yields the tokens of a derivation
(`Arrangement.exists_derivation`).
-/
namespace Rulebook.Infix

/-- The arrangements of a category, where a factor is a place for operands. -/
inductive Arrangement : Category → Type
  /-- a place without operands -/
  | vacant : Arrangement .factor
  /-- one more operand in a place, a condition -/
  | condition (before : Arrangement .factor) (text : String) : Arrangement .factor
  /-- one more operand in a place, an expression in parentheses -/
  | group (before : Arrangement .factor) (inner : Arrangement .expression) : Arrangement .factor
  | ofPlace (place : Arrangement .factor) : Arrangement .term
  | and (left : Arrangement .term) (right : Arrangement .factor) : Arrangement .term
  | ofTerm (t : Arrangement .term) : Arrangement .expression
  | or (left : Arrangement .expression) (right : Arrangement .term) : Arrangement .expression

namespace Arrangement

/-- The tokens that an arrangement yields. -/
def tokens {k : Category} : Arrangement k → List Token
  | .vacant => []
  | .condition before text => before.tokens ++ [.condition text]
  | .group before inner => before.tokens ++ .openParen :: (inner.tokens ++ [.closeParen])
  | .ofPlace place => place.tokens
  | .and left right => left.tokens ++ .connective .and :: right.tokens
  | .ofTerm t => t.tokens
  | .or left right => left.tokens ++ .connective .or :: right.tokens

/-- The post-order listing of an arrangement: a connective behind what stands on its two sides. -/
def listing {k : Category} : Arrangement k → List Token
  | .vacant => []
  | .condition before text => before.listing ++ [.condition text]
  | .group before inner => before.listing ++ inner.listing
  | .ofPlace place => place.listing
  | .and left right => left.listing ++ right.listing ++ [.connective .and]
  | .ofTerm t => t.listing
  | .or left right => left.listing ++ right.listing ++ [.connective .or]

/-- How many operands an arrangement holds: a place any number, a term or an expression is one. -/
def held {k : Category} : Arrangement k → Nat
  | .vacant => 0
  | .condition before _ => before.held + 1
  | .group before _ => before.held + 1
  | .ofPlace _ | .and _ _ | .ofTerm _ | .or _ _ => 1

/-- How many places of the terms and expressions in an arrangement hold no operand. -/
def lacking {k : Category} : Arrangement k → Nat
  | .vacant => 0
  | .condition before _ => before.lacking
  | .group before inner => before.lacking + inner.lacking
  | .ofPlace place => place.lacking + (1 - place.held)
  | .and left right => left.lacking + (right.lacking + (1 - right.held))
  | .ofTerm t => t.lacking
  | .or left right => left.lacking + right.lacking

/-- How many operands stand beside the first one of their place, in the terms and expressions in an
arrangement. -/
def surplus {k : Category} : Arrangement k → Nat
  | .vacant => 0
  | .condition before _ => before.surplus
  | .group before inner => before.surplus + inner.surplus
  | .ofPlace place => place.surplus + (place.held - 1)
  | .and left right => left.surplus + (right.surplus + (right.held - 1))
  | .ofTerm t => t.surplus
  | .or left right => left.surplus + right.surplus

variable {k : Category}

@[simp] theorem held_term (t : Arrangement .term) : t.held = 1 := by
  cases t <;> rfl

@[simp] theorem held_expression (e : Arrangement .expression) : e.held = 1 := by
  cases e <;> rfl

/-- **What an arrangement lacks and has too many shows in its listing**: in the difference between
the numbers of conditions and connectives. -/
theorem length_conditions_listing (a : Arrangement k) :
    (Token.conditions a.listing).length + a.lacking =
      (Token.connectives a.listing).length + a.surplus + a.held := by
  induction a with
  | vacant => rfl
  | condition before text ih =>
    simp [listing, lacking, surplus, held]
    omega
  | group before inner ihb ihi =>
    simp [listing, lacking, surplus, held] at ihi ⊢
    omega
  | ofPlace place ih =>
    simp only [listing, lacking, surplus, held]
    omega
  | and left right ihl ihr =>
    simp [listing, lacking, surplus, held] at ihl ⊢
    omega
  | ofTerm t ih =>
    simp [listing, lacking, surplus, held] at ih ⊢
    omega
  | or left right ihl ihr =>
    simp [listing, lacking, surplus, held] at ihl ihr ⊢
    omega

end Arrangement

/-! ## Infix expressions among the arrangements -/

/-- A derivation of the infix grammar as an arrangement with one operand in every place. -/
def Derivation.arrangement {k : Category} : Derivation k → Arrangement k
  | .condition text => .condition .vacant text
  | .group inner => .group .vacant inner.arrangement
  | .ofFactor f => .ofPlace f.arrangement
  | .and left right => .and left.arrangement right.arrangement
  | .ofTerm t => .ofTerm t.arrangement
  | .or left right => .or left.arrangement right.arrangement

namespace Derivation

variable {k : Category}

@[simp] theorem tokens_arrangement (d : Derivation k) : d.arrangement.tokens = d.tokens := by
  induction d with
  | condition text => rfl
  | group inner ih => simp [arrangement, Arrangement.tokens, tokens, ih]
  | ofFactor f ih => exact ih
  | ofTerm t ih => exact ih
  | and left right ihl ihr | or left right ihl ihr =>
    simp [arrangement, Arrangement.tokens, tokens, ihl, ihr]

/-- The listing of a derivation, as an arrangement, is that of its tree. -/
@[simp] theorem listing_arrangement (d : Derivation k) :
    d.arrangement.listing = d.tree.postorder := by
  induction d with
  | condition text => rfl
  | group inner ih => exact ih
  | ofFactor f ih => exact ih
  | ofTerm t ih => exact ih
  | and left right ihl ihr | or left right ihl ihr =>
    rw [arrangement, Arrangement.listing, ihl, ihr, tree, Tree.postorder]

@[simp] theorem held_arrangement (d : Derivation k) : d.arrangement.held = 1 := by
  cases d <;> rfl

@[simp] theorem lacking_arrangement (d : Derivation k) : d.arrangement.lacking = 0 := by
  induction d with
  | condition text => rfl
  | group inner ih => simp [arrangement, Arrangement.lacking, ih]
  | ofFactor f ih => simp [arrangement, Arrangement.lacking, ih]
  | ofTerm t ih => exact ih
  | and left right ihl ihr | or left right ihl ihr =>
    simp [arrangement, Arrangement.lacking, ihl, ihr]

@[simp] theorem surplus_arrangement (d : Derivation k) : d.arrangement.surplus = 0 := by
  induction d with
  | condition text => rfl
  | group inner ih => simp [arrangement, Arrangement.surplus, ih]
  | ofFactor f ih => simp [arrangement, Arrangement.surplus, ih]
  | ofTerm t ih => exact ih
  | and left right ihl ihr | or left right ihl ihr =>
    simp [arrangement, Arrangement.surplus, ihl, ihr]

end Derivation

namespace Arrangement

variable {k : Category}

theorem tokens_of_held_eq_zero {place : Arrangement .factor} (h : place.held = 0) :
    place.tokens = [] := by
  cases place with
  | vacant => rfl
  | condition before text => cases h
  | group before inner => cases h

/-- An arrangement that holds one operand, lacks nothing and has nothing too many is a derivation of
the infix grammar. -/
theorem exists_derivation (a : Arrangement k) (hheld : a.held = 1) (hlacking : a.lacking = 0)
    (hsurplus : a.surplus = 0) : ∃ d : Derivation k, d.tokens = a.tokens := by
  induction a with
  | vacant => cases hheld
  | condition before text _ =>
    refine ⟨.condition text, ?_⟩
    rw [tokens, tokens_of_held_eq_zero (Nat.succ.inj hheld)]
    rfl
  | group before inner _ ih =>
    simp only [lacking, surplus, Nat.add_eq_zero_iff] at hlacking hsurplus
    obtain ⟨d, hd⟩ := ih inner.held_expression hlacking.2 hsurplus.2
    refine ⟨.group d, ?_⟩
    rw [tokens, tokens_of_held_eq_zero (Nat.succ.inj hheld), Derivation.tokens, hd]
    rfl
  | ofPlace place ih =>
    simp only [lacking, surplus, Nat.add_eq_zero_iff] at hlacking hsurplus
    obtain ⟨d, hd⟩ := ih (by omega) hlacking.1 hsurplus.1
    exact ⟨.ofFactor d, hd⟩
  | and left right ihl ihr =>
    simp only [lacking, surplus, Nat.add_eq_zero_iff] at hlacking hsurplus
    obtain ⟨dl, hdl⟩ := ihl left.held_term hlacking.1 hsurplus.1
    obtain ⟨dr, hdr⟩ := ihr (by omega) hlacking.2.1 hsurplus.2.1
    exact ⟨.and dl dr, by rw [Derivation.tokens, hdl, hdr, tokens]⟩
  | ofTerm t ih =>
    obtain ⟨d, hd⟩ := ih t.held_term hlacking hsurplus
    exact ⟨.ofTerm d, hd⟩
  | or left right ihl ihr =>
    simp only [lacking, surplus, Nat.add_eq_zero_iff] at hlacking hsurplus
    obtain ⟨dl, hdl⟩ := ihl left.held_expression hlacking.1 hsurplus.1
    obtain ⟨dr, hdr⟩ := ihr right.held_term hlacking.2 hsurplus.2
    exact ⟨.or dl dr, by rw [Derivation.tokens, hdl, hdr, tokens]⟩

end Arrangement

end Rulebook.Infix
