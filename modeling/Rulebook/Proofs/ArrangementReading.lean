import Rulebook.Proofs.Arrangement
import Rulebook.Proofs.Nesting

/-! # Reading arrangements

Tokens are read into an arrangement with one `Level` for every open parenthesis.  Reading fails at a
stray `)` only (`Reader.exists_readAll`) and forgets no token (`Reader.tokens_readAll`), so every
balanced list is the tokens of an arrangement (`exists_tokens_eq`).  Reading the tokens of an
arrangement gives that arrangement back (`readAll_tokens`), so no list is the tokens of two
(`tokens_injective`).  What an arrangement lacks and has too many is therefore a fact about its
tokens, and they are infix if it is nothing (`exists_derivation_iff`).
-/
namespace Rulebook.Infix

/-- What is read at one level of parentheses and not joined yet. -/
structure Level where
  /-- the expression in front of the latest `OR` -/
  sum : Option (Arrangement .expression)
  /-- the term in front of the latest `AND` behind that `OR` -/
  product : Option (Arrangement .term)
  /-- the place behind the latest connective -/
  place : Arrangement .factor

namespace Level

/-- Nothing is read yet. -/
def fresh : Level := ⟨none, none, .vacant⟩

/-- The term that ends here. -/
def term (l : Level) : Arrangement .term :=
  match l.product with
  | none => .ofPlace l.place
  | some t => .and t l.place

/-- The expression that ends here. -/
def expression (l : Level) : Arrangement .expression :=
  match l.sum with
  | none => .ofTerm l.term
  | some e => .or e l.term

/-- The tokens read. -/
def tokens (l : Level) : List Token := l.expression.tokens

/-- A connective follows. -/
def join (l : Level) : Connective → Level
  | .and => ⟨l.sum, some l.term, .vacant⟩
  | .or => ⟨some l.expression, none, .vacant⟩

@[simp] theorem tokens_fresh : fresh.tokens = [] := rfl

theorem tokens_condition (l : Level) (text : String) :
    tokens ⟨l.sum, l.product, .condition l.place text⟩ = l.tokens ++ [.condition text] := by
  obtain ⟨_ | e, _ | t, place⟩ := l <;> simp [tokens, expression, term, Arrangement.tokens]

theorem tokens_group (l : Level) (inner : Arrangement .expression) :
    tokens ⟨l.sum, l.product, .group l.place inner⟩ =
      l.tokens ++ .openParen :: (inner.tokens ++ [.closeParen]) := by
  obtain ⟨_ | e, _ | t, place⟩ := l <;> simp [tokens, expression, term, Arrangement.tokens]

theorem tokens_join (l : Level) (c : Connective) :
    (l.join c).tokens = l.tokens ++ [.connective c] := by
  obtain ⟨_ | e, _ | t, place⟩ := l <;>
    cases c <;> simp [join, tokens, expression, term, Arrangement.tokens]

end Level

/-- The levels that are open: the innermost one, and those around it from the inside. -/
structure Reader where
  level : Level
  outer : List Level

namespace Reader

/-- Nothing is read yet. -/
def start : Reader := ⟨.fresh, []⟩

/-- Reads one token.  A `)` needs a level around the innermost one. -/
def read (r : Reader) : Token → Option Reader
  | .condition text => some ⟨⟨r.level.sum, r.level.product, .condition r.level.place text⟩, r.outer⟩
  | .connective c => some ⟨r.level.join c, r.outer⟩
  | .openParen => some ⟨.fresh, r.level :: r.outer⟩
  | .closeParen =>
    match r.outer with
    | [] => none
    | l :: outer => some ⟨⟨l.sum, l.product, .group l.place r.level.expression⟩, outer⟩

/-- Reads tokens one after the other. -/
def readAll (r : Reader) : List Token → Option Reader
  | [] => some r
  | t :: ts => (r.read t).bind (readAll · ts)

theorem readAll_append (r : Reader) (ts us : List Token) :
    r.readAll (ts ++ us) = (r.readAll ts).bind (readAll · us) := by
  induction ts generalizing r with
  | nil => rfl
  | cons t ts ih =>
    rw [List.cons_append, readAll, readAll]
    cases r.read t with
    | none => rfl
    | some next => exact ih next

/-- The tokens of the levels around the innermost one, each with the `(` behind it. -/
def tokensAround : List Level → List Token
  | [] => []
  | l :: outer => tokensAround outer ++ (l.tokens ++ [.openParen])

/-- The tokens read. -/
def tokens (r : Reader) : List Token := tokensAround r.outer ++ r.level.tokens

theorem tokens_read {r next : Reader} {t : Token} (h : r.read t = some next) :
    next.tokens = r.tokens ++ [t] := by
  cases t with
  | condition text =>
    obtain rfl := Option.some.inj h
    simp [tokens, Level.tokens_condition]
  | connective c =>
    obtain rfl := Option.some.inj h
    simp [tokens, Level.tokens_join]
  | openParen =>
    obtain rfl := Option.some.inj h
    simp [tokens, tokensAround]
  | closeParen =>
    obtain ⟨level, outer⟩ := r
    cases outer with
    | nil => cases h
    | cons l outer =>
      obtain rfl := Option.some.inj h
      simp only [tokens, tokensAround, Level.tokens_group]
      simp [Level.tokens]

/-- No token is forgotten. -/
theorem tokens_readAll {r next : Reader} {ts : List Token} (h : r.readAll ts = some next) :
    next.tokens = r.tokens ++ ts := by
  induction ts generalizing r with
  | nil =>
    obtain rfl := Option.some.inj h
    simp
  | cons t ts ih =>
    obtain ⟨mid, hmid, h⟩ := Option.bind_eq_some_iff.mp h
    rw [ih h, tokens_read hmid]
    simp

/-- Reading fails at a stray `)` only, and there are as many levels as parentheses are open. -/
theorem exists_readAll {r : Reader} {ts : List Token} (h : Token.strays r.outer.length ts = 0) :
    ∃ next, r.readAll ts = some next ∧
      next.outer.length = Token.leftOpen r.outer.length ts := by
  induction ts generalizing r with
  | nil => exact ⟨r, rfl, rfl⟩
  | cons t ts ih =>
    rw [Token.strays, Nat.add_eq_zero_iff] at h
    obtain ⟨next, hread, hlength⟩ : ∃ next, r.read t = some next ∧
        next.outer.length = Token.depthAfter r.outer.length t := by
      cases t with
      | condition text => exact ⟨_, rfl, rfl⟩
      | connective c => exact ⟨_, rfl, rfl⟩
      | openParen => exact ⟨_, rfl, rfl⟩
      | closeParen =>
        obtain ⟨level, outer⟩ := r
        cases outer with
        | nil => cases h.2
        | cons l outer => exact ⟨_, rfl, rfl⟩
    obtain ⟨last, hall, hlast⟩ := ih (r := next) (by rw [hlength]; exact h.1)
    refine ⟨last, ?_, ?_⟩
    · rw [readAll, hread]
      exact hall
    · rw [hlast, hlength]
      rfl

end Reader

/-- **Every balanced list is the tokens of an arrangement.** -/
theorem exists_tokens_eq {ts : List Token} (h : Token.Balanced ts) :
    ∃ a : Arrangement .expression, a.tokens = ts := by
  obtain ⟨next, hread, hlength⟩ := Reader.exists_readAll (r := .start) h.1
  have houter : next.outer = [] := List.length_eq_zero_iff.mp (hlength.trans h.2)
  refine ⟨next.level.expression, ?_⟩
  have ht := Reader.tokens_readAll hread
  rw [Reader.tokens, houter] at ht
  exact ht

/-! ## Arrangements are read back -/

/-- What reading the tokens of an arrangement of the category does to a level: a place is filled,
and a term or an expression ends there. -/
def Category.Ends : (k : Category) → Level → Arrangement k → Level → Prop
  | .factor, before, place, after => after = ⟨before.sum, before.product, place⟩
  | .term, before, t, after => after.sum = before.sum ∧ after.term = t
  | .expression, _, e, after => after.expression = e

/-- The levels where an arrangement of the category can begin. -/
def Category.Begins : Category → Level → Prop
  | .factor, l => l.place = .vacant
  | .term, l => l.product = none ∧ l.place = .vacant
  | .expression, l => l = .fresh

/-- Reading the tokens of an arrangement, inside any levels, reads that arrangement. -/
theorem readAll_tokens {k : Category} (a : Arrangement k) (before : Level) (outer : List Level)
    (h : k.Begins before) :
    ∃ after, Reader.readAll ⟨before, outer⟩ a.tokens = some ⟨after, outer⟩ ∧
      k.Ends before a after := by
  induction a generalizing before outer with
  | vacant =>
    refine ⟨before, rfl, ?_⟩
    obtain ⟨sum, product, place⟩ := before
    obtain rfl : place = .vacant := h
    rfl
  | condition place text ih =>
    obtain ⟨after, hread, rfl⟩ := ih before outer h
    refine ⟨_, ?_, rfl⟩
    rw [Arrangement.tokens, Reader.readAll_append, hread]
    rfl
  | group place inner ihp ihi =>
    obtain ⟨after, hread, rfl⟩ := ihp before outer h
    -- the inner expression is read at a fresh level, around which stands the present one
    obtain ⟨last, hinner, hlast⟩ := ihi .fresh (⟨before.sum, before.product, place⟩ :: outer) rfl
    refine ⟨_, ?_, rfl⟩
    rw [Arrangement.tokens, Reader.readAll_append, hread, Option.bind_some, Reader.readAll,
      Reader.read, Option.bind_some, Reader.readAll_append, hinner, Option.bind_some,
      Reader.readAll, Reader.read, show last.expression = inner from hlast]
    rfl
  | ofPlace place ih =>
    obtain ⟨after, hread, rfl⟩ := ih before outer h.2
    refine ⟨_, hread, rfl, ?_⟩
    rw [Level.term, h.1]
  | and left right ihl ihr =>
    obtain ⟨mid, hleft, hsum, rfl⟩ := ihl before outer h
    obtain ⟨after, hright, rfl⟩ := ihr (mid.join .and) outer rfl
    refine ⟨⟨mid.sum, some mid.term, right⟩, ?_, hsum, rfl⟩
    rw [Arrangement.tokens, Reader.readAll_append, hleft, Option.bind_some, Reader.readAll]
    exact hright
  | ofTerm t ih =>
    obtain rfl : before = .fresh := h
    obtain ⟨after, hread, hsum, rfl⟩ := ih .fresh outer ⟨rfl, rfl⟩
    refine ⟨after, hread, ?_⟩
    rw [Category.Ends, Level.expression, hsum]
    rfl
  | or left right ihl ihr =>
    obtain ⟨mid, hleft, rfl⟩ := ihl before outer h
    obtain ⟨after, hright, hsum, rfl⟩ := ihr (mid.join .or) outer ⟨rfl, rfl⟩
    refine ⟨after, ?_, ?_⟩
    · rw [Arrangement.tokens, Reader.readAll_append, hleft, Option.bind_some, Reader.readAll]
      exact hright
    · rw [Category.Ends, Level.expression, hsum]
      rfl

theorem readAll_tokens_start (a : Arrangement .expression) :
    ∃ l : Level, Reader.start.readAll a.tokens = some ⟨l, []⟩ ∧ l.expression = a :=
  readAll_tokens a .fresh [] rfl

/-- **No list is the tokens of two arrangements.** -/
theorem tokens_injective {a b : Arrangement .expression} (h : a.tokens = b.tokens) : a = b := by
  obtain ⟨la, hra, rfl⟩ := readAll_tokens_start a
  obtain ⟨lb, hrb, rfl⟩ := readAll_tokens_start b
  rw [h, hrb] at hra
  cases hra
  rfl

/-- **The infix expressions are the arrangements that lack nothing and have nothing too many.** -/
theorem exists_derivation_iff {a : Arrangement .expression} :
    (∃ d : Derivation .expression, d.tokens = a.tokens) ↔ a.lacking = 0 ∧ a.surplus = 0 := by
  constructor
  · rintro ⟨d, hd⟩
    obtain rfl : d.arrangement = a := tokens_injective (d.tokens_arrangement.trans hd)
    exact ⟨d.lacking_arrangement, d.surplus_arrangement⟩
  · rintro ⟨hlacking, hsurplus⟩
    exact a.exists_derivation a.held_expression hlacking hsurplus

end Rulebook.Infix
