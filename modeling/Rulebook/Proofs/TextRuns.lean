import Mathlib.Data.List.TakeWhile
import Rulebook.Text.Blank

/-! # Runs of a class of characters

A text *stops* a class of characters when it does not begin with one of them (`Stops`).  A run of
the class in front of such a text is taken off it whole: the run is what is taken, and the text is
what is left (`takeWhile_append_of_stops`, `dropWhile_append_of_stops`).

White space around a text that has none at its own ends is what trimming takes off
(`trimBlank_between`, `padded_trimBlank`).

A character that stands in one text behind another stands in the first or in the second
(`append_eq_append_cons`).
-/
namespace Rulebook

/-- A character of a class is none of those outside it. -/
theorem ne_of_class {p : Char → Bool} {c d : Char} (hc : p c = true) (hd : p d = false) :
    c ≠ d := by
  rintro rfl
  rw [hc] at hd
  cases hd

/-- A text does not begin with a character of the class `p`. -/
def Stops (p : Char → Bool) (cs : List Char) : Prop := ∀ c ∈ cs.head?, p c = false

theorem stops_nil (p : Char → Bool) : Stops p [] := fun c hc => absurd hc (Option.not_mem_none c)

theorem stops_cons {p : Char → Bool} {c : Char} {cs : List Char} :
    Stops p (c :: cs) ↔ p c = false := by
  simp [Stops]

/-- What is left when a run is taken off stops the class of the run. -/
theorem stops_dropWhile (p : Char → Bool) (cs : List Char) : Stops p (cs.dropWhile p) := by
  intro c hc
  have hhead := List.head?_dropWhile_not p cs
  rwa [Option.mem_def.mp hc] at hhead

theorem takeWhile_append_of_stops {p : Char → Bool} {run rest : List Char} (h : ∀ c ∈ run, p c)
    (hr : Stops p rest) : (run ++ rest).takeWhile p = run := by
  rw [List.takeWhile_append_of_pos h]
  cases rest with
  | nil => exact List.append_nil run
  | cons c cs => rw [List.takeWhile_cons, stops_cons.mp hr]; exact List.append_nil run

theorem dropWhile_append_of_stops {p : Char → Bool} {run rest : List Char} (h : ∀ c ∈ run, p c)
    (hr : Stops p rest) : (run ++ rest).dropWhile p = rest := by
  rw [List.dropWhile_append_of_pos h]
  cases rest with
  | nil => rfl
  | cons c cs => rw [List.dropWhile_cons, stops_cons.mp hr]; rfl

/-! ## White space at the ends -/

theorem stops_of_forall {p : Char → Bool} {cs : List Char} (h : ∀ c ∈ cs, p c = false) :
    Stops p cs :=
  fun c hc => h c (List.mem_of_mem_head? hc)

/-- The white space around a text is taken off it whole. -/
theorem trimBlank_between {before body after : List Char} (hb : ∀ x ∈ before, isBlank x)
    (ha : ∀ x ∈ after, isBlank x) (hfront : Stops isBlank (body ++ after))
    (hback : Stops isBlank body.reverse) : trimBlank (before ++ (body ++ after)) = body := by
  have ha' : ∀ x ∈ after.reverse, isBlank x := fun x hx => ha x (List.mem_reverse.mp hx)
  rw [trimBlank, dropWhile_append_of_stops hb hfront, List.reverse_append,
    dropWhile_append_of_stops ha' hback, List.reverse_reverse]

/-- A text is itself if it has no white space at its ends. -/
theorem trimBlank_of_stops {cs : List Char} (hfront : Stops isBlank cs)
    (hback : Stops isBlank cs.reverse) : trimBlank cs = cs := by
  have hnone : ∀ x ∈ ([] : List Char), isBlank x := List.forall_mem_nil _
  rw [← List.append_nil cs] at hfront
  have h := trimBlank_between hnone hnone hfront hback
  rwa [List.append_nil, List.nil_append] at h

/-- A text without white space keeps all of its characters. -/
theorem trimBlank_eq_self {cs : List Char} (h : ∀ c ∈ cs, isBlank c = false) :
    trimBlank cs = cs :=
  trimBlank_of_stops (stops_of_forall h)
    (stops_of_forall fun c hc => h c (List.mem_reverse.mp hc))

/-- A text is another one with white space around it. -/
def Padded (body text : List Char) : Prop :=
  ∃ before after, text = before ++ (body ++ after) ∧ (∀ x ∈ before, isBlank x) ∧
    ∀ x ∈ after, isBlank x

/-- A text is what is left of it without the white space at its ends, and this white space. -/
theorem padded_trimBlank (cs : List Char) : Padded (trimBlank cs) cs := by
  refine ⟨cs.takeWhile isBlank, ((cs.dropWhile isBlank).reverse.takeWhile isBlank).reverse, ?_,
    fun x hx => List.mem_takeWhile_imp hx, ?_⟩
  · rw [trimBlank, ← List.reverse_append, List.takeWhile_append_dropWhile, List.reverse_reverse,
      List.takeWhile_append_dropWhile]
  · exact fun x hx => List.mem_takeWhile_imp (List.mem_reverse.mp hx)

/-- A word is what is left of it between white space. -/
theorem Padded.trimBlank_eq {body text : List Char} (h : Padded body text) (hne : body ≠ [])
    (hfree : ∀ c ∈ body, isBlank c = false) : trimBlank text = body := by
  obtain ⟨before, after, rfl, hb, ha⟩ := h
  refine trimBlank_between hb ha ?_ (stops_of_forall fun c hc => hfree c (List.mem_reverse.mp hc))
  obtain ⟨c, cs, rfl⟩ := List.exists_cons_of_ne_nil hne
  exact stops_cons.mpr (hfree c List.mem_cons_self)

/-! ## Characters in one text behind another -/

/-- A character in one text behind another is in the first or in the second. -/
theorem append_eq_append_cons {α : Type} {xs ys l r : List α} {a : α}
    (h : xs ++ ys = l ++ a :: r) :
    (∃ r', xs = l ++ a :: r' ∧ r = r' ++ ys) ∨ ∃ l', l = xs ++ l' ∧ ys = l' ++ a :: r := by
  rcases List.append_eq_append_iff.mp h with hbehind | ⟨r', hxs, hr⟩
  · exact .inr hbehind
  · cases r' with
    | nil => exact .inr ⟨[], by simpa using hxs.symm, by simpa using hr.symm⟩
    | cons b r' =>
      obtain ⟨rfl, hr'⟩ := List.cons.inj hr
      exact .inl ⟨r', hxs, hr'⟩

/-- Behind a text without the character, it is in the other text. -/
theorem exists_of_append_eq {α : Type} {xs ys l r : List α} {a : α} (ha : a ∉ xs)
    (h : xs ++ ys = l ++ a :: r) : ∃ l', l = xs ++ l' ∧ ys = l' ++ a :: r := by
  refine (append_eq_append_cons h).resolve_left ?_
  rintro ⟨r', rfl, -⟩
  exact ha (by simp)

end Rulebook
