/-!
# JSON strings

JSON writes strings between double quotes.

Writing turns one character at a time into its escape. Reading goes over the text once, up to the
closing quote, and gives the *pieces* of the string: characters, and the halves of surrogate pairs
that a numeric escape can name. The pieces are a string only if each first half is followed by a
second half and no second half stands alone; a text may hold others, which can be passed over but
not read.
-/

namespace Rulebook

namespace Json

/-- One hexadecimal digit in lower case. -/
def hexDigit (n : Nat) : Char := if n < 10 then Char.ofNat (48 + n) else Char.ofNat (87 + n)

/-- How a character is written in a string: the quote, the backslash and the control characters are
escaped, the usual ones by a letter, and all else stands for itself. -/
def escapeChar (c : Char) : List Char :=
  if c = '"' then ['\\', '"']
  else if c = '\\' then ['\\', '\\']
  else if c = '\x08' then ['\\', 'b']
  else if c = '\x0c' then ['\\', 'f']
  else if c = '\n' then ['\\', 'n']
  else if c = '\r' then ['\\', 'r']
  else if c = '\t' then ['\\', 't']
  else if c.toNat < 0x20 then
    ['\\', 'u', '0', '0', hexDigit (c.toNat / 16), hexDigit (c.toNat % 16)]
  else [c]

/-- A string between its quotes. -/
def escape (s : String) : List Char := '"' :: s.toList.flatMap escapeChar ++ ['"']

/-- What one character or one escape of a written string stands for. -/
inductive Piece
  /-- a character -/
  | char (c : Char)
  /-- the first half of a surrogate pair, by the ten bits it carries -/
  | high (bits : Nat)
  /-- the second half of a surrogate pair, by the ten bits it carries -/
  | low (bits : Nat)
deriving DecidableEq, Repr

/-- Whether a piece is half of a surrogate pair. -/
def Piece.isHalf : Piece → Bool
  | .char _ => false
  | .high _ | .low _ => true

/-- Whether a half carries no more than ten bits. -/
def Piece.fits : Piece → Bool
  | .char _ => true
  | .high bits | .low bits => bits < 0x400

/-- The piece that a numeric escape names. -/
def Piece.ofUnit (n : Nat) : Piece :=
  if 0xD800 ≤ n ∧ n < 0xDC00 then .high (n - 0xD800)
  else if 0xDC00 ≤ n ∧ n < 0xE000 then .low (n - 0xDC00)
  else .char (Char.ofNat n)

/-- The value of a hexadecimal digit of either case. -/
def hexValue? (c : Char) : Option Nat :=
  if '0' ≤ c ∧ c ≤ '9' then some (c.toNat - 48)
  else if 'a' ≤ c ∧ c ≤ 'f' then some (c.toNat - 87)
  else if 'A' ≤ c ∧ c ≤ 'F' then some (c.toNat - 55)
  else none

/-- The value of four hexadecimal digits. -/
def hexUnit? (a b c d : Char) : Option Nat := do
  let a ← hexValue? a
  let b ← hexValue? b
  let c ← hexValue? c
  let d ← hexValue? d
  return ((a * 16 + b) * 16 + c) * 16 + d

/-- The character that a one-letter escape stands for. -/
def letterEscape? (c : Char) : Option Char :=
  if c = '"' ∨ c = '\\' ∨ c = '/' then some c
  else if c = 'b' then some '\x08'
  else if c = 'f' then some '\x0c'
  else if c = 'n' then some '\n'
  else if c = 'r' then some '\r'
  else if c = 't' then some '\t'
  else none

/-- The pieces of a written string up to its closing quote, and the text after it. Nothing if the
quote is missing, an escape is unknown or a control character stands in the string. -/
def readPieces : List Char → Option (List Piece × List Char)
  | [] => none
  | '"' :: rest => some ([], rest)
  | '\\' :: 'u' :: a :: b :: c :: d :: rest => do
    let n ← hexUnit? a b c d
    let (ps, rest) ← readPieces rest
    return (.ofUnit n :: ps, rest)
  | '\\' :: c :: rest => do
    let c ← letterEscape? c
    let (ps, rest) ← readPieces rest
    return (.char c :: ps, rest)
  | c :: rest =>
    if c.toNat < 0x20 ∨ c = '\\' then none
    else do
      let (ps, rest) ← readPieces rest
      return (.char c :: ps, rest)

/-- The characters that pieces stand for, if the surrogate pairs among them are whole. -/
def joinPieces : List Piece → Option (List Char)
  | [] => some []
  | .char c :: ps => (joinPieces ps).map (c :: ·)
  | .high a :: .low b :: ps =>
    (joinPieces ps).map (Char.ofNat (0x10000 + a * 0x400 + b) :: ·)
  | _ :: _ => none

/-- A written string, whose opening quote is already taken, and the text after it. The string is
missing if its surrogate pairs are not whole. -/
def readString (cs : List Char) : Option (Option String × List Char) :=
  (readPieces cs).map fun (ps, rest) => ((joinPieces ps).map String.ofList, rest)

theorem length_readPieces {cs rest : List Char} {ps : List Piece}
    (h : readPieces cs = some (ps, rest)) : rest.length < cs.length := by
  fun_induction readPieces cs generalizing ps rest with
  | case1 => simp at h
  | case2 r =>
    obtain ⟨-, rfl⟩ := Prod.mk.inj (Option.some.inj h)
    simp
  | case3 a b c d r ih =>
    simp only [bind, Option.bind_eq_some_iff] at h
    obtain ⟨_, -, ⟨ps', r'⟩, hr, h⟩ := h
    obtain ⟨-, rfl⟩ := Prod.mk.inj (Option.some.inj h)
    have := ih hr
    simp only [List.length_cons]
    omega
  | case4 c r _ ih =>
    simp only [bind, Option.bind_eq_some_iff] at h
    obtain ⟨_, -, ⟨ps', r'⟩, hr, h⟩ := h
    obtain ⟨-, rfl⟩ := Prod.mk.inj (Option.some.inj h)
    have := ih hr
    simp only [List.length_cons]
    omega
  | case5 => simp at h
  | case6 c r _ _ _ _ ih =>
    simp only [bind, Option.bind_eq_some_iff] at h
    obtain ⟨⟨ps', r'⟩, hr, h⟩ := h
    obtain ⟨-, rfl⟩ := Prod.mk.inj (Option.some.inj h)
    have := ih hr
    simp only [List.length_cons]
    omega

theorem length_readString {cs rest : List Char} {s : Option String}
    (h : readString cs = some (s, rest)) : rest.length < cs.length := by
  simp only [readString, Option.map_eq_some_iff, Prod.exists] at h
  obtain ⟨ps, r, hr, h⟩ := h
  obtain ⟨-, rfl⟩ := Prod.mk.inj h
  exact length_readPieces hr

end Json

end Rulebook
