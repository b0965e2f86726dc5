import Mathlib.Data.String.Basic
import Rulebook.Condition
import Rulebook.Proofs.DoubleValues

/-! # The comparisons are a strict order of each type

Values of one type are compared, numbers by what they are worth and texts by their characters, of
which the first that differ decide (`Scalar.Less`, `Scalar.Alike`).  A double that is no number is
comparable with nothing, and neither are a number and a text (`Scalar.Comparable`).

Two comparable values are in exactly one of the three relations (`Comparator.Relates.unique`,
`Scalar.Comparable.exists_relates`), and others are in none.  These are the relations that a
condition looks for (`Condition.holds_eq_true_iff`).  So of the three conditions on one attribute
with one value at most one holds (`Condition.comparator_unique`), and where one value is less than
another, conditions with the one follow from conditions with the other
(`Condition.holds_of_relates`).
-/
namespace Rulebook

open Binary64

namespace Scalar

/-- The characters of a text as numbers. -/
def codePoints (s : String) : List ℕ := s.toList.map Char.toNat

/-- The value is less than another of its type. -/
inductive Less : Scalar → Scalar → Prop
  | number {x y : Binary64} (hx : x.isNaN = false) (hy : y.isNaN = false)
    (h : x.toEReal < y.toEReal) : Less (.number x) (.number y)
  | text {s t : String} (h : codePoints s < codePoints t) : Less (.text s) (.text t)

/-- The value equals another of its type. -/
inductive Alike : Scalar → Scalar → Prop
  | number {x y : Binary64} (hx : x.isNaN = false) (hy : y.isNaN = false)
    (h : x.toEReal = y.toEReal) : Alike (.number x) (.number y)
  | text (s : String) : Alike (.text s) (.text s)

/-- The values are of one type, and none of them is a double that is no number. -/
inductive Comparable : Scalar → Scalar → Prop
  | number {x y : Binary64} (hx : x.isNaN = false) (hy : y.isNaN = false) :
    Comparable (.number x) (.number y)
  | text (s t : String) : Comparable (.text s) (.text t)

/-! ## The order -/

theorem codePoints_strictMono : StrictMono codePoints := by
  intro s t h
  rw [String.lt_iff_toList_lt] at h
  exact List.map_lt (fun _ _ hlt => hlt) h

theorem Less.trans {u v w : Scalar} (h : u.Less v) (h' : v.Less w) : u.Less w := by
  cases h with
  | number hx hy hlt =>
    cases h' with
    | number _ hz hlt' => exact .number hx hz (hlt.trans hlt')
  | text hlt =>
    cases h' with
    | text hlt' => exact .text (hlt.trans hlt')

theorem Alike.less {u v w : Scalar} (h : u.Alike v) (h' : v.Less w) : u.Less w := by
  cases h with
  | number hx hy heq =>
    cases h' with
    | number _ hz hlt => exact .number hx hz (heq.trans_lt hlt)
  | text s => exact h'

theorem Less.not_alike {u v : Scalar} (h : u.Less v) : ¬ u.Alike v := by
  intro halike
  cases h with
  | number hx hy hlt =>
    cases halike with
    | number _ _ heq => exact hlt.ne heq
  | text hlt =>
    cases halike
    exact lt_irrefl _ hlt

theorem Alike.symm {u v : Scalar} (h : u.Alike v) : v.Alike u := by
  cases h with
  | number hx hy heq => exact .number hy hx heq.symm
  | text s => exact .text s

theorem Less.irrefl {u : Scalar} : ¬ u.Less u := by
  intro h
  cases h with
  | number _ _ hlt => exact lt_irrefl _ hlt
  | text hlt => exact lt_irrefl _ hlt

theorem Less.asymm {u v : Scalar} (h : u.Less v) : ¬ v.Less u := fun h' => (h.trans h').irrefl

theorem Less.comparable {u v : Scalar} (h : u.Less v) : u.Comparable v := by
  cases h with
  | number hx hy _ => exact .number hx hy
  | text _ => exact .text _ _

theorem Alike.comparable {u v : Scalar} (h : u.Alike v) : u.Comparable v := by
  cases h with
  | number hx hy _ => exact .number hx hy
  | text s => exact .text s s

theorem Comparable.symm {u v : Scalar} (h : u.Comparable v) : v.Comparable u := by
  cases h with
  | number hx hy => exact .number hy hx
  | text s t => exact .text t s

theorem Comparable.trichotomy {u v : Scalar} (h : u.Comparable v) :
    u.Less v ∨ u.Alike v ∨ v.Less u := by
  cases h with
  | @number x y hx hy =>
    rcases lt_trichotomy x.toEReal y.toEReal with hlt | heq | hgt
    · exact .inl (.number hx hy hlt)
    · exact .inr (.inl (.number hx hy heq))
    · exact .inr (.inr (.number hy hx hgt))
  | text s t =>
    rcases lt_trichotomy s t with hlt | rfl | hgt
    · exact .inl (.text (codePoints_strictMono hlt))
    · exact .inr (.inl (.text s))
    · exact .inr (.inr (.text (codePoints_strictMono hgt)))

/-! ## The order is what is computed -/

theorem less_number_iff {x y : Binary64} : Less (.number x) (.number y) ↔ x.lt y = true := by
  rw [lt_eq_true_iff]
  constructor
  · rintro ⟨hx, hy, hlt⟩
    exact ⟨hx, hy, hlt⟩
  · rintro ⟨hx, hy, hlt⟩
    exact .number hx hy hlt

theorem alike_number_iff {x y : Binary64} : Alike (.number x) (.number y) ↔ x.numEq y = true := by
  rw [numEq_eq_true_iff]
  constructor
  · rintro ⟨hx, hy, heq⟩
    exact ⟨hx, hy, heq⟩
  · rintro ⟨hx, hy, heq⟩
    exact .number hx hy heq

theorem less_text_iff {s t : String} : Less (.text s) (.text t) ↔ s < t := by
  rw [← codePoints_strictMono.lt_iff_lt]
  constructor
  · intro h
    cases h with
    | text hlt => exact hlt
  · exact .text

theorem alike_text_iff {s t : String} : Alike (.text s) (.text t) ↔ s = t := by
  constructor
  · rintro ⟨⟩
    rfl
  · rintro rfl
    exact .text s

end Scalar

namespace Comparator

/-- What a comparison says of two values. -/
def Relates : Comparator → Scalar → Scalar → Prop
  | .greater, u, v => v.Less u
  | .less, u, v => u.Less v
  | .equal, u, v => u.Alike v

variable {o o' : Comparator} {u v : Scalar}

theorem Relates.comparable (h : o.Relates u v) : u.Comparable v := by
  cases o with
  | greater => exact (Scalar.Less.comparable h).symm
  | less => exact Scalar.Less.comparable h
  | equal => exact Scalar.Alike.comparable h

theorem Relates.eq_greater (h : o.Relates u v) (hgreater : v.Less u) : o = .greater := by
  cases o with
  | greater => rfl
  | less => exact absurd h hgreater.asymm
  | equal => exact absurd (Scalar.Alike.symm h) hgreater.not_alike

theorem Relates.eq_less (h : o.Relates u v) (hless : u.Less v) : o = .less := by
  cases o with
  | greater => exact absurd h hless.asymm
  | less => rfl
  | equal => exact absurd h hless.not_alike

theorem Relates.eq_equal (h : o.Relates u v) (halike : u.Alike v) : o = .equal := by
  cases o with
  | greater => exact absurd halike.symm (Scalar.Less.not_alike h)
  | less => exact absurd halike (Scalar.Less.not_alike h)
  | equal => rfl

/-- **Two values are in one of the relations at most.** -/
theorem Relates.unique (h : o.Relates u v) (h' : o'.Relates u v) : o = o' := by
  cases o' with
  | greater => exact h.eq_greater h'
  | less => exact h.eq_less h'
  | equal => exact h.eq_equal h'

end Comparator

/-- **Two comparable values are in one of the relations.** -/
theorem Scalar.Comparable.exists_relates {u v : Scalar} (h : u.Comparable v) :
    ∃ o : Comparator, o.Relates u v := by
  rcases h.trichotomy with hless | halike | hgreater
  · exact ⟨.less, hless⟩
  · exact ⟨.equal, halike⟩
  · exact ⟨.greater, hgreater⟩

namespace Condition

theorem compares_eq_true_iff {o : Comparator} {u v : Scalar} :
    compares o u v = true ↔ o.Relates u v := by
  cases u with
  | number x =>
    cases v with
    | number y =>
      cases o with
      | greater => exact Scalar.less_number_iff.symm
      | less => exact Scalar.less_number_iff.symm
      | equal => exact Scalar.alike_number_iff.symm
    | text t =>
      refine iff_of_false ?_ fun h => nomatch h.comparable
      cases o <;> exact Bool.false_ne_true
  | text s =>
    cases v with
    | number y =>
      refine iff_of_false ?_ fun h => nomatch h.comparable
      cases o <;> exact Bool.false_ne_true
    | text t =>
      cases o with
      | greater => exact decide_eq_true_iff.trans Scalar.less_text_iff.symm
      | less => exact decide_eq_true_iff.trans Scalar.less_text_iff.symm
      | equal => exact decide_eq_true_iff.trans Scalar.alike_text_iff.symm

variable {attr : String} {o : Comparator} {v : Scalar} {r : Record}

/-- **A condition holds if the record has the attribute, and its value is in the relation.** -/
theorem holds_eq_true_iff :
    holds ⟨attr, o, v⟩ r = true ↔ ∃ u, r.get? attr = some u ∧ o.Relates u v := by
  simp only [holds]
  cases r.get? attr with
  | none => exact iff_of_false Bool.false_ne_true (by rintro ⟨u, ⟨⟩, -⟩)
  | some u =>
    rw [compares_eq_true_iff]
    constructor
    · intro h
      exact ⟨u, rfl, h⟩
    · rintro ⟨u', hu, h⟩
      obtain rfl := Option.some.inj hu
      exact h

theorem comparator_unique {o' : Comparator} (h : holds ⟨attr, o, v⟩ r = true)
    (h' : holds ⟨attr, o', v⟩ r = true) : o = o' := by
  obtain ⟨u, hu, hrel⟩ := holds_eq_true_iff.mp h
  obtain ⟨u', hu', hrel'⟩ := holds_eq_true_iff.mp h'
  obtain rfl := Option.some.inj (hu.symm.trans hu')
  exact hrel.unique hrel'

/-- Where one relation to a value follows from another, so does the condition that looks for it. -/
theorem holds_of_relates {o' : Comparator} {w : Scalar}
    (hrel : ∀ u, o.Relates u v → o'.Relates u w) (h : holds ⟨attr, o, v⟩ r = true) :
    holds ⟨attr, o', w⟩ r = true := by
  obtain ⟨u, hu, hv⟩ := holds_eq_true_iff.mp h
  exact holds_eq_true_iff.mpr ⟨u, hu, hrel u hv⟩

/-- **The comparisons with a value are a strict order of its type.**  At most one of the three holds
of a record, exactly one if the record has a value that is comparable with it, and otherwise none.
Of two values the larger is exceeded only where the smaller is, and what is less than the smaller,
or equal to it, is less than the larger. -/
theorem comparators_ordered (r : Record) (attr : String) :
    (∀ v o o', holds ⟨attr, o, v⟩ r = true → holds ⟨attr, o', v⟩ r = true → o = o') ∧
    (∀ v, (∃! o, holds ⟨attr, o, v⟩ r = true) ↔
      ∃ u, r.get? attr = some u ∧ u.Comparable v) ∧
    (∀ v, (¬ ∃ u, r.get? attr = some u ∧ u.Comparable v) →
      ∀ o, holds ⟨attr, o, v⟩ r = false) ∧
    ∀ v w : Scalar, v.Less w →
      (holds ⟨attr, .greater, w⟩ r = true → holds ⟨attr, .greater, v⟩ r = true) ∧
      (holds ⟨attr, .less, v⟩ r = true → holds ⟨attr, .less, w⟩ r = true) ∧
      (holds ⟨attr, .equal, v⟩ r = true → holds ⟨attr, .less, w⟩ r = true) := by
  refine ⟨fun v o o' => comparator_unique, ?_, ?_, ?_⟩
  · intro v
    constructor
    · rintro ⟨o, h, -⟩
      obtain ⟨u, hu, hrel⟩ := holds_eq_true_iff.mp h
      exact ⟨u, hu, hrel.comparable⟩
    · rintro ⟨u, hu, hcomparable⟩
      obtain ⟨o, hrel⟩ := hcomparable.exists_relates
      have h : holds ⟨attr, o, v⟩ r = true := holds_eq_true_iff.mpr ⟨u, hu, hrel⟩
      exact ⟨o, h, fun o' h' => comparator_unique h' h⟩
  · intro v hnone o
    by_contra h
    obtain ⟨u, hu, hrel⟩ := holds_eq_true_iff.mp (Bool.eq_true_of_not_eq_false h)
    exact hnone ⟨u, hu, hrel.comparable⟩
  · intro v w hvw
    refine ⟨holds_of_relates ?_, holds_of_relates ?_, holds_of_relates ?_⟩
    · intro u hu
      exact hvw.trans hu
    · intro u hu
      exact Scalar.Less.trans hu hvw
    · intro u hu
      exact Scalar.Alike.less hu hvw

/-- The two zeros are compared like one number, what is no number is in no relation to infinity, and
a text is less than what it begins. -/
theorem comparators_ordered_corners :
    ∃ r : Record, (∃! o, holds ⟨"zero", o, .number ⟨0⟩⟩ r = true) ∧
      holds ⟨"zero", .equal, .number ⟨0⟩⟩ r = true ∧
      (∀ o, holds ⟨"nan", o, .number ⟨0x7ff0000000000000⟩⟩ r = false) ∧
      (∀ o, holds ⟨"name", o, .number ⟨0⟩⟩ r = false) ∧
      holds ⟨"name", .less, .text "éa"⟩ r = true := by
  let r : Record := ((Record.empty.insert "zero" (.number ⟨0x8000000000000000⟩)).insert "nan"
    (.number ⟨0x7ff8000000000000⟩)).insert "name" (.text "é")
  have hzero : r.get? "zero" = some (.number ⟨0x8000000000000000⟩) := by decide +kernel
  have hnan : r.get? "nan" = some (.number ⟨0x7ff8000000000000⟩) := by decide +kernel
  have hname : r.get? "name" = some (.text "é") := by decide +kernel
  have hless : (Scalar.text "é").Less (.text "éa") := .text (by decide +kernel)
  refine ⟨r, ?_, by decide +kernel, ?_, ?_, ?_⟩
  · refine ((comparators_ordered r "zero").2.1 _).mpr ⟨_, hzero, .number ?_ ?_⟩
    · decide +kernel
    · decide +kernel
  · refine (comparators_ordered r "nan").2.2.1 _ ?_
    rintro ⟨u, hu, hcomparable⟩
    obtain rfl := Option.some.inj (hu.symm.trans hnan)
    cases hcomparable with
    | number hx _ => exact absurd hx (by decide +kernel)
  · refine (comparators_ordered r "name").2.2.1 _ ?_
    rintro ⟨u, hu, hcomparable⟩
    obtain rfl := Option.some.inj (hu.symm.trans hname)
    cases hcomparable
  · exact ((comparators_ordered r "name").2.2.2 _ _ hless).2.2 (by decide +kernel)

end Condition

end Rulebook
