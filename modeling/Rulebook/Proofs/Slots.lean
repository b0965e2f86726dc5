import Mathlib.Data.List.Forall2
import Mathlib.Logic.Function.Basic
import Rulebook.Json.Value

/-! # Slots for the fields of an object

A reader of objects has a slot for each key it knows.  A slot is given the values under its key, in
their order (`valuesOf`), and what fills it has to come last (`Filled`).

The slots of one reader are a family (`Slots`).  One more field is one more value for the slot of
its key, and leaves the others alone (`Slots.fill_cons_iff`); a field with another key changes
nothing (`Slots.fill_cons_of_ne`).  So a reader that takes fields one by one in this manner fills
each slot with the values under its key, whatever the order of the keys (`Slots.eq_ok_iff_fill`).
-/
namespace Rulebook.Json

/-! ## One slot -/

/-- The values under a key, in the order of the fields. -/
def valuesOf (key : String) (fields : List (Option String × Json)) : List Json :=
  fields.filterMap fun f => if f.1 = some key then some f.2 else none

variable {key : String} {v : Json} {fields : List (Option String × Json)}

@[simp] theorem valuesOf_nil : valuesOf key [] = [] := rfl

theorem valuesOf_cons (f : Option String × Json) : valuesOf key (f :: fields) =
    if f.1 = some key then f.2 :: valuesOf key fields else valuesOf key fields := by
  by_cases h : f.1 = some key <;> simp [valuesOf, h]

theorem valuesOf_cons_self :
    valuesOf key ((some key, v) :: fields) = v :: valuesOf key fields := by
  rw [valuesOf_cons, if_pos rfl]

theorem valuesOf_cons_of_ne {k : String} (h : k ≠ key) :
    valuesOf key ((some k, v) :: fields) = valuesOf key fields := by
  rw [valuesOf_cons, if_neg fun he => h (Option.some.inj he)]

/-- A slot is given values one after the other.  What fills it has to come last. -/
inductive Filled {α : Type} (Reads : Json → Option α → Prop) :
    Option α → List Json → Option α → Prop
  | done (slot : Option α) : Filled Reads slot [] slot
  | step {v : Json} {vs : List Json} {next slot : Option α} (hv : Reads v next)
    (hvs : Filled Reads next vs slot) : Filled Reads none (v :: vs) slot

namespace Filled

variable {α : Type} {Reads : Json → Option α → Prop} {before after : Option α}
  {vs : List Json}

@[simp] theorem nil_iff : Filled Reads before [] after ↔ before = after := by
  constructor
  · rintro ⟨⟩
    rfl
  · rintro rfl
    exact .done _

@[simp] theorem cons_iff :
    Filled Reads before (v :: vs) after ↔
      before = none ∧ ∃ next, Reads v next ∧ Filled Reads next vs after := by
  constructor
  · rintro (_ | ⟨hv, hvs⟩)
    exact ⟨rfl, _, hv, hvs⟩
  · rintro ⟨rfl, next, hv, hvs⟩
    exact .step hv hvs

/-- A slot that is full takes no more. -/
theorem some_iff {a : α} : Filled Reads (some a) vs after ↔ vs = [] ∧ after = some a := by
  cases vs <;> simp [eq_comm]

/-- Values of which the same is read fill a slot alike. -/
theorem congr {ws : List Json} (h : List.Forall₂ (fun v w => ∀ o, Reads v o ↔ Reads w o) vs ws) :
    Filled Reads before vs after ↔ Filled Reads before ws after := by
  induction h generalizing before with
  | nil => rfl
  | cons hvw _ ih => simp only [Filled.cons_iff, hvw, ih]

end Filled

/-! ## The slots of a reader -/

/-- The slots of a reader in its state `σ`.  Each has a key of its own, and a relation that says
what a value under the key leaves in it. -/
structure Slots (σ ι : Type) (α : ι → Type) [DecidableEq ι] where
  key : ι → String
  Reads : (i : ι) → Json → Option (α i) → Prop
  get : σ → (i : ι) → Option (α i)
  put : σ → (i : ι) → Option (α i) → σ
  key_injective : Function.Injective key
  get_injective : Function.Injective get
  get_put (f : σ) (i : ι) (a : Option (α i)) : get (put f i a) = Function.update (get f) i a

namespace Slots

variable {σ ι : Type} {α : ι → Type} [DecidableEq ι] (S : Slots σ ι α) {f g : σ}

/-- No key is broken, and the values under the key of each slot fill it. -/
structure Fill (fields : List (Option String × Json)) (f g : σ) : Prop where
  whole : ∀ p ∈ fields, p.1.isSome
  slot (i : ι) : Filled (S.Reads i) (S.get f i) (valuesOf (S.key i) fields) (S.get g i)

theorem fill_nil_iff : S.Fill [] f g ↔ f = g := by
  constructor
  · intro h
    exact S.get_injective (funext fun i => Filled.nil_iff.mp (h.slot i))
  · rintro rfl
    exact ⟨List.forall_mem_nil _, fun i => .done _⟩

theorem not_fill_broken : ¬ S.Fill ((none, v) :: fields) f g :=
  fun h => Bool.false_ne_true (h.whole _ List.mem_cons_self)

/-- **One more field is one more value for its slot**, and leaves the others alone. -/
theorem fill_cons_iff (i : ι) : S.Fill ((some (S.key i), v) :: fields) f g ↔
    S.get f i = none ∧ ∃ next, S.Reads i v next ∧ S.Fill fields (S.put f i next) g := by
  have hvalues : ∀ j, j ≠ i →
      valuesOf (S.key j) ((some (S.key i), v) :: fields) = valuesOf (S.key j) fields :=
    fun j hj => valuesOf_cons_of_ne fun h => hj (S.key_injective h).symm
  constructor
  · intro h
    have hi := h.slot i
    rw [valuesOf_cons_self, Filled.cons_iff] at hi
    obtain ⟨hnone, next, hv, hrest⟩ := hi
    refine ⟨hnone, next, hv, fun p hp => h.whole p (List.mem_cons_of_mem _ hp), fun j => ?_⟩
    rw [S.get_put]
    by_cases hj : j = i
    · subst hj
      rwa [Function.update_self]
    · rw [Function.update_of_ne hj, ← hvalues j hj]
      exact h.slot j
  · rintro ⟨hnone, next, hv, h⟩
    refine ⟨List.forall_mem_cons.mpr ⟨rfl, h.whole⟩, fun j => ?_⟩
    have hslot := h.slot j
    rw [S.get_put] at hslot
    by_cases hj : j = i
    · subst hj
      rw [Function.update_self] at hslot
      rw [valuesOf_cons_self, hnone]
      exact .step hv hslot
    · rwa [Function.update_of_ne hj, ← hvalues j hj] at hslot

theorem fill_cons_of_ne {k : String} (h : ∀ i, S.key i ≠ k) :
    S.Fill ((some k, v) :: fields) f g ↔ S.Fill fields f g := by
  have hvalues : ∀ i, valuesOf (S.key i) ((some k, v) :: fields) = valuesOf (S.key i) fields :=
    fun i => valuesOf_cons_of_ne (h i).symm
  constructor
  · intro hfill
    exact ⟨fun p hp => hfill.whole p (List.mem_cons_of_mem _ hp), fun i => hvalues i ▸ hfill.slot i⟩
  · intro hfill
    exact ⟨List.forall_mem_cons.mpr ⟨rfl, hfill.whole⟩, fun i => (hvalues i).symm ▸ hfill.slot i⟩

/-- **Reading fields one by one is filling the slots**, each with the values under its key. -/
theorem eq_ok_iff_fill {ε : Type} (read : List (Option String × Json) → σ → Except ε σ)
    (hnil : ∀ f, read [] f = .ok f) (hbroken : ∀ v rest f g, read ((none, v) :: rest) f ≠ .ok g)
    (hslot : ∀ i v rest f g, read ((some (S.key i), v) :: rest) f = .ok g ↔
      S.get f i = none ∧ ∃ next, S.Reads i v next ∧ read rest (S.put f i next) = .ok g)
    (hother : ∀ k v rest f, (∀ i, S.key i ≠ k) → read ((some k, v) :: rest) f = read rest f) :
    read fields f = .ok g ↔ S.Fill fields f g := by
  induction fields generalizing f with
  | nil => rw [hnil, S.fill_nil_iff, Except.ok.injEq]
  | cons field rest ih =>
    obtain ⟨_ | k, v⟩ := field
    · exact iff_of_false (hbroken v rest f g) S.not_fill_broken
    by_cases hk : ∃ i, S.key i = k
    · obtain ⟨i, rfl⟩ := hk
      simp only [hslot, S.fill_cons_iff, ih]
    · have hne : ∀ i, S.key i ≠ k := fun i hi => hk ⟨i, hi⟩
      rw [hother k v rest f hne, S.fill_cons_of_ne hne, ih]

/-- Fields of which the same is read under every key fill the slots alike. -/
theorem Fill.congr {fields' : List (Option String × Json)}
    (hwhole : (∀ p ∈ fields, p.1.isSome) ↔ ∀ p ∈ fields', p.1.isSome)
    (h : ∀ i, List.Forall₂ (fun v w => ∀ o, S.Reads i v o ↔ S.Reads i w o)
      (valuesOf (S.key i) fields) (valuesOf (S.key i) fields')) :
    S.Fill fields f g ↔ S.Fill fields' f g := by
  constructor
  · intro hfill
    exact ⟨hwhole.mp hfill.whole, fun i => (Filled.congr (h i)).mp (hfill.slot i)⟩
  · intro hfill
    exact ⟨hwhole.mpr hfill.whole, fun i => (Filled.congr (h i)).mpr (hfill.slot i)⟩

end Slots

end Rulebook.Json
