/-!
# Sets of characters

Sets of characters are given by the code points they span. A set is a list of closed ranges in
increasing order, and a search stops at the first range that begins beyond the code point asked for,
so that the common low code points are decided in a few steps.
-/

namespace Rulebook

/-- Whether the code point `n` lies in one of the ranges, which are in increasing order. -/
def inRanges (n : Nat) : List (Nat × Nat) → Bool
  | [] => false
  | (first, last) :: rest =>
    if n < first then false else if n ≤ last then true else inRanges n rest

@[simp] theorem inRanges_nil (n : Nat) : inRanges n [] = false := rfl

theorem inRanges_cons (n first last : Nat) (rest : List (Nat × Nat)) :
    inRanges n ((first, last) :: rest) =
      if n < first then false else if n ≤ last then true else inRanges n rest := rfl

end Rulebook
