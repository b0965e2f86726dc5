import Rulebook.Scalar

/-!
# Data records

Records are what the attributes of a rule are looked up in. A record keeps one value for each
attribute, the last one given.
-/

namespace Rulebook

/-- A record, as its attributes with their values. -/
structure Record where
  fields : List (String × Scalar)
  /-- no attribute has two values -/
  nodup : (fields.map Prod.fst).Nodup

namespace Record

/-- The record without attributes. -/
def empty : Record := ⟨[], List.Pairwise.nil⟩

/-- The value of an attribute. -/
def get? (r : Record) (attr : String) : Option Scalar := r.fields.lookup attr

/-- Puts the value of an attribute into a list of fields, in the place of its old value. -/
def putField (attr : String) (v : Scalar) : List (String × Scalar) → List (String × Scalar)
  | [] => [(attr, v)]
  | (key, w) :: rest => if key = attr then (key, v) :: rest else (key, w) :: putField attr v rest

theorem mem_keys_putField {attr key : String} {v : Scalar} {fields : List (String × Scalar)} :
    key ∈ (putField attr v fields).map Prod.fst ↔ key = attr ∨ key ∈ fields.map Prod.fst := by
  induction fields with
  | nil => simp [putField]
  | cons f rest ih =>
    obtain ⟨k, w⟩ := f
    rw [putField]
    split
    · next h =>
      subst h
      simp
    · simp only [List.map_cons, List.mem_cons, ih]
      constructor
      · rintro (rfl | rfl | h)
        · exact .inr (.inl rfl)
        · exact .inl rfl
        · exact .inr (.inr h)
      · rintro (rfl | rfl | h)
        · exact .inr (.inl rfl)
        · exact .inl rfl
        · exact .inr (.inr h)

theorem nodup_putField {attr : String} {v : Scalar} {fields : List (String × Scalar)}
    (h : (fields.map Prod.fst).Nodup) : ((putField attr v fields).map Prod.fst).Nodup := by
  induction fields with
  | nil => simp [putField]
  | cons f rest ih =>
    obtain ⟨k, w⟩ := f
    rw [List.map_cons, List.nodup_cons] at h
    rw [putField]
    split
    · next hk => simpa using h
    · next hk =>
      rw [List.map_cons, List.nodup_cons, mem_keys_putField]
      exact ⟨fun hor => hor.elim hk h.1, ih h.2⟩

/-- Gives an attribute a value. -/
def insert (r : Record) (attr : String) (v : Scalar) : Record :=
  ⟨putField attr v r.fields, nodup_putField r.nodup⟩

/-- The record of a list of attributes with their values, of which the last one of an attribute
is in force. -/
def ofList (fields : List (String × Scalar)) : Record :=
  fields.foldl (fun r f => r.insert f.1 f.2) empty

/-- How many attributes have a value. -/
def size (r : Record) : Nat := r.fields.length

/-- Whether no attribute has a value. -/
def isEmpty (r : Record) : Bool := r.fields.isEmpty

/-- Whether two records give the same attributes the same values. -/
def same (r t : Record) : Bool :=
  r.size = t.size && r.fields.all fun f =>
    match t.get? f.1 with
    | some v => f.2.same v
    | none => false

theorem lookup_putField {attr key : String} {v : Scalar} {fields : List (String × Scalar)} :
    (putField attr v fields).lookup key = if key = attr then some v else fields.lookup key := by
  induction fields with
  | nil =>
    by_cases h : key = attr
    · simp [putField, h]
    · simp [putField, List.lookup_cons, h, beq_eq_false_iff_ne.2 h]
  | cons f rest ih =>
    obtain ⟨k, w⟩ := f
    rw [putField]
    by_cases hk : k = attr
    · subst hk
      by_cases h : key = k
      · simp [h]
      · simp [List.lookup_cons, h, beq_eq_false_iff_ne.2 h]
    · by_cases h : key = k
      · subst h
        simp [hk]
      · simp [hk, List.lookup_cons, beq_eq_false_iff_ne.2 h, ih]

/-- After an insertion the attribute has the new value and every other keeps its own. -/
@[simp] theorem get?_insert (r : Record) (attr key : String) (v : Scalar) :
    (r.insert attr v).get? key = if key = attr then some v else r.get? key :=
  lookup_putField

@[simp] theorem get?_empty (key : String) : empty.get? key = none := rfl

end Record

end Rulebook
