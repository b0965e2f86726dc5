import Mathlib.Data.List.Forall2
import Mathlib.Data.List.Permutation
import Mathlib.Data.List.Rotate
import Rulebook.Host.Record
import Rulebook.Proofs.DoubleValues
import Rulebook.Proofs.RecordContents
import Rulebook.Proofs.RecordNumbers
import Rulebook.Proofs.Stages

/-! # Records from texts and from dicts

Both readers take every field for itself.  The reader of texts inserts the scalars that the values
are, and refuses the text if some value is none, also one that a later field of the same key would
replace (`Record.readFields_eq_ok_iff`).  The reader of dicts does the same, though it asks first
for the type of a value and then for its double (`Record.readEntries_eq_ok_iff`).  What is left of
fields with the same key, and of their order, is a matter of the insertions alone
(`Record.get?_ofList`, `Record.size_ofList`), so the two readers agree on fields with different keys
(`Record.readers_agree`).

A number of a text and a number of a dict correspond if they have the same double, or if neither has
one.  An infinite number, or what is no number, corresponds to no numeral; only a dict can hold it.
-/
namespace Rulebook

/-! ## Scalars on the two sides -/

/-- The double that is read of a number in a JSON text. -/
def Numeral.double? (n : Numeral) : Option Binary64 := n.value?.map NumberValue.toBinary64

theorem Numeral.isFinite_of_double? {n : Numeral} {x : Binary64} (h : n.double? = some x) :
    x.isFinite = true := by
  rw [double?, n.value?_eq] at h
  split at h
  · rename_i hlt
    obtain rfl := Option.some.inj h
    rw [Binary64.isFinite_iff, Binary64.magnitude_ofMagnitude _ (hlt.trans (by decide))]
    exact hlt
  · cases h

/-- The scalar that a JSON value is: a string, or a number with a finite double. -/
inductive Json.IsScalar : Json → Scalar → Prop
  | text (s : String) : IsScalar (.text s) (.text s)
  | number {n : Numeral} {x : Binary64} (hx : n.double? = some x) (hfinite : x.isFinite = true) :
    IsScalar (.atom (.number n)) (.number x)

/-- The double that a host program has for a number. -/
def HostValue.double? : HostValue → Option Binary64
  | .int i => if (Binary64.ofInt i).isFinite then some (.ofInt i) else none
  | .float x => some x
  | _ => none

/-- A host value stands for a JSON value.  Numbers have the same double or none.  A string that is
not whole is a text with a half that lacks its other half.  What lists and dicts hold is left open,
since records hold neither. -/
inductive HostValue.StandsFor : HostValue → Json → Prop
  | absent : StandsFor .absent .null
  | bool (b : Bool) : StandsFor (.bool b) (.bool b)
  | int {i : Int} {n : Numeral} (h : (HostValue.int i).double? = n.double?) :
    StandsFor (.int i) (.atom (.number n))
  | float {x : Binary64} {n : Numeral} (h : (HostValue.float x).double? = n.double?) :
    StandsFor (.float x) (.atom (.number n))
  | text (s : String) : StandsFor (.text s) (.text s)
  | broken {t : BrokenText} (h : t.joined? = none) : StandsFor (.brokenText t) (.atom (.text none))
  | list (items : List HostValue) (values : List Json) : StandsFor (.list items) (.array values)
  | dict (entries : List (HostValue × HostValue)) (fields : List (Option String × Json)) :
    StandsFor (.dict entries) (.object fields)

namespace Json.IsScalar

variable {v : Json} {x y : Scalar}

theorem number_iff {n : Numeral} : IsScalar (.atom (.number n)) x ↔
    n.double?.map Scalar.number = some x := by
  constructor
  · intro h
    cases h with
    | number hx _ => rw [hx, Option.map_some]
  · intro h
    obtain ⟨d, hd, rfl⟩ := Option.map_eq_some_iff.mp h
    exact .number hd (Numeral.isFinite_of_double? hd)

/-- A value is one scalar at most. -/
theorem unique (hx : v.IsScalar x) (hy : v.IsScalar y) : x = y := by
  cases hx with
  | text s =>
    cases hy with
    | text => rfl
  | number hx _ =>
    cases hy with
    | number hy _ => rw [Option.some.inj (hx.symm.trans hy)]

/-- The scalars of records equal themselves. -/
theorem same_self (h : v.IsScalar x) : x.same x = true := by
  cases h with
  | text s => exact decide_eq_true rfl
  | @number n d _ hfinite =>
    have hnumber := Binary64.isNaN_of_isFinite hfinite
    exact Binary64.numEq_eq_true_iff.mpr ⟨hnumber, hnumber, rfl⟩

end Json.IsScalar

namespace Record

theorem readScalar_eq_ok_iff {v : Json} {x : Scalar} : readScalar v = .ok x ↔ v.IsScalar x := by
  unfold readScalar
  split
  · rename_i n
    rw [Json.IsScalar.number_iff, Numeral.double?]
    cases n.value? <;> simp
  · rename_i s
    constructor
    · intro h
      obtain rfl := Except.ok.inj h
      exact .text s
    · rintro ⟨⟩
      rfl
  · constructor
    · intro h
      cases h
    · rintro ⟨⟩
  · rename_i hnumber htext _
    constructor
    · intro h
      cases h
    · rintro (s | @⟨n, d, -, -⟩)
      · exact absurd rfl (htext s)
      · exact absurd rfl (hnumber n)

/-- The ordered test of types finds the same scalar. -/
theorem scalarOfHost?_eq_some_iff {w : HostValue} {v : Json} (h : w.StandsFor v) {x : Scalar} :
    scalarOfHost? w = some x ↔ v.IsScalar x := by
  cases h with
  | int hd =>
    rw [Json.IsScalar.number_iff, ← hd, HostValue.double?, scalarOfHost?]
    split <;> rfl
  | float hd =>
    rw [Json.IsScalar.number_iff, ← hd]
    rfl
  | text s =>
    constructor
    · intro h
      obtain rfl := Option.some.inj h
      exact .text s
    · rintro ⟨⟩
      rfl
  | absent | bool | broken | list | dict =>
    constructor
    · intro h
      cases h
    · rintro ⟨⟩

/-! ## The two readers -/

variable {r t : Record} {key : String} {values : List (String × Scalar)}

/-- A field of a text and a field of a record have the same key, and the value is the scalar. -/
def ReadsAs (f : String × Json) (g : String × Scalar) : Prop := f.1 = g.1 ∧ f.2.IsScalar g.2

/-- An entry of a dict and a field of a text have the same key and values that stand for one
another. -/
def EntryOf (e : HostValue × HostValue) (f : String × Json) : Prop :=
  e.1 = .text f.1 ∧ e.2.StandsFor f.2

variable {fields : List (String × Json)}

theorem exists_values_iff :
    (∃ values, List.Forall₂ ReadsAs fields values) ↔ ∀ f ∈ fields, ∃ x, f.2.IsScalar x := by
  induction fields with
  | nil => exact iff_of_true ⟨[], .nil⟩ (List.forall_mem_nil _)
  | cons f fields ih =>
    rw [List.forall_mem_cons, ← ih]
    constructor
    · rintro ⟨_, _ | ⟨hf, hfields⟩⟩
      exact ⟨⟨_, hf.2⟩, _, hfields⟩
    · rintro ⟨⟨x, hx⟩, values, hfields⟩
      exact ⟨(f.1, x) :: values, .cons ⟨rfl, hx⟩ hfields⟩

/-- Some record is made of the fields exactly if all values are scalars. -/
theorem exists_record_iff :
    (∃ r, ∃ values, List.Forall₂ ReadsAs fields values ∧ ofList values = r) ↔
      ∀ f ∈ fields, ∃ x, f.2.IsScalar x := by
  rw [← exists_values_iff]
  constructor
  · rintro ⟨_, values, hvalues, -⟩
    exact ⟨values, hvalues⟩
  · rintro ⟨values, hvalues⟩
    exact ⟨_, values, hvalues, rfl⟩

theorem keys_eq_of_readsAs (h : List.Forall₂ ReadsAs fields values) :
    values.map Prod.fst = fields.map Prod.fst := by
  induction h with
  | nil => rfl
  | cons hf _ ih => rw [List.map_cons, List.map_cons, hf.1, ih]

theorem mem_values_iff (h : List.Forall₂ ReadsAs fields values) {x : Scalar} :
    (key, x) ∈ values ↔ ∃ v, (key, v) ∈ fields ∧ v.IsScalar x := by
  induction h with
  | nil => simp
  | @cons f g fields values hf _ ih =>
    rw [List.mem_cons, ih]
    constructor
    · rintro (rfl | ⟨v, hv, hx⟩)
      · exact ⟨f.2, List.mem_cons.mpr (.inl (Prod.ext hf.1.symm rfl)), hf.2⟩
      · exact ⟨v, List.mem_cons_of_mem _ hv, hx⟩
    · rintro ⟨v, hv, hx⟩
      rcases List.mem_cons.mp hv with rfl | hv
      · exact .inl (Prod.ext hf.1 (hx.unique hf.2))
      · exact .inr ⟨v, hv, hx⟩

/-- **Reading the fields of an object is inserting their scalars.** -/
theorem readFields_eq_ok_iff : readFields r (fields.map fun f => (some f.1, f.2)) = .ok t ↔
    ∃ values, List.Forall₂ ReadsAs fields values ∧ r.insertAll values = t := by
  induction fields generalizing r with
  | nil =>
    constructor
    · intro h
      exact ⟨[], .nil, Except.ok.inj h⟩
    · rintro ⟨_, ⟨⟩, rfl⟩
      rfl
  | cons f fields ih =>
    rw [List.map_cons, readFields, except_bind_eq_ok_iff]
    constructor
    · rintro ⟨x, hx, hrest⟩
      obtain ⟨values, hvalues, rfl⟩ := ih.mp hrest
      exact ⟨(f.1, x) :: values, .cons ⟨rfl, readScalar_eq_ok_iff.mp hx⟩ hvalues, rfl⟩
    · rintro ⟨_, _ | @⟨_, ⟨k, x⟩, _, values, ⟨rfl, hx⟩, hvalues⟩, rfl⟩
      exact ⟨x, readScalar_eq_ok_iff.mpr hx, ih.mpr ⟨values, hvalues, rfl⟩⟩

/-- **Reading the entries of a dict is inserting their scalars.** -/
theorem readEntries_eq_ok_iff {entries : List (HostValue × HostValue)}
    (h : List.Forall₂ EntryOf entries fields) : readEntries r entries = .ok t ↔
      ∃ values, List.Forall₂ ReadsAs fields values ∧ r.insertAll values = t := by
  induction h generalizing r with
  | nil =>
    constructor
    · intro h
      exact ⟨[], .nil, Except.ok.inj h⟩
    · rintro ⟨_, ⟨⟩, rfl⟩
      rfl
  | @cons e f entries fields he _ ih =>
    obtain ⟨k, w⟩ := e
    obtain ⟨rfl, hstands⟩ := he
    rw [readEntries]
    constructor
    · intro hread
      split at hread
      · rename_i x hx
        obtain ⟨values, hvalues, rfl⟩ := ih.mp hread
        exact ⟨(f.1, x) :: values,
          .cons ⟨rfl, (scalarOfHost?_eq_some_iff hstands).mp hx⟩ hvalues, rfl⟩
      · cases hread
    · rintro ⟨_, _ | @⟨_, ⟨k, x⟩, _, values, ⟨rfl, hx⟩, hvalues⟩, rfl⟩
      rw [(scalarOfHost?_eq_some_iff hstands).mpr hx]
      exact ih.mpr ⟨values, hvalues, rfl⟩

theorem fromJson_eq_ok_iff_values {text : String}
    (htext : Json.Spells text.toList (.ofFields fields)) : fromJson text = .ok r ↔
      ∃ values, List.Forall₂ ReadsAs fields values ∧ ofList values = r := by
  have hread : readFields empty (fields.map fun f => (some f.1, f.2)) = .ok r ↔
      ∃ values, List.Forall₂ ReadsAs fields values ∧ ofList values = r := readFields_eq_ok_iff
  rw [fromJson, Json.parse?_eq_some_iff.mpr htext, ← hread]
  show Except.mapError _ (readFields empty _) = .ok r ↔ _
  cases readFields empty (fields.map fun f => (some f.1, f.2)) with
  | ok r' => simp [Except.mapError]
  | error fault => simp [Except.mapError]

theorem ofHost_eq_ok_iff {entries : List (HostValue × HostValue)}
    (h : List.Forall₂ EntryOf entries fields) : ofHost (.dict entries) = .ok r ↔
      ∃ values, List.Forall₂ ReadsAs fields values ∧ ofList values = r :=
  readEntries_eq_ok_iff h

/-- **Fields with different keys are the record.** -/
theorem get?_of_readsAs (hkeys : (fields.map Prod.fst).Nodup)
    (h : List.Forall₂ ReadsAs fields values) {x : Scalar} :
    (ofList values).get? key = some x ↔ ∃ v, (key, v) ∈ fields ∧ v.IsScalar x := by
  rw [get?_ofList_of_nodup (keys_eq_of_readsAs h ▸ hkeys), mem_values_iff h]

/-- **The two readers of records agree.**  Take a text that spells an object with any fields.  It is
accepted exactly if every value is a string or a number with a finite double, and then it is the
record that insertion of the scalars gives, field by field: each key has its last value, and there
are as many values as different keys.  If no key is repeated, a dict of the same fields, in any
order, is accepted exactly if the text is, and it is the same record. -/
theorem readers_agree {text : String} (htext : Json.Spells text.toList (.ofFields fields)) :
    ((∃ r, fromJson text = .ok r) ↔ ∀ f ∈ fields, ∃ x, f.2.IsScalar x) ∧
    (∀ values, List.Forall₂ ReadsAs fields values →
      fromJson text = .ok (ofList values) ∧
      (∀ key, (ofList values).get? key = values.reverse.lookup key) ∧
      (ofList values).size = (fields.map Prod.fst).toFinset.card) ∧
    ((fields.map Prod.fst).Nodup → ∀ listed entries, listed.Perm fields →
      List.Forall₂ EntryOf entries listed →
        ((∃ r, ofHost (.dict entries) = .ok r) ↔ ∃ r, fromJson text = .ok r) ∧
        ∀ r t, ofHost (.dict entries) = .ok r → fromJson text = .ok t →
          (∀ key, r.get? key = t.get? key) ∧ r.size = t.size ∧ r.same t = true) := by
  have haccepted : (∃ r, fromJson text = .ok r) ↔ ∀ f ∈ fields, ∃ x, f.2.IsScalar x := by
    simp only [fromJson_eq_ok_iff_values htext, exists_record_iff]
  refine ⟨haccepted, fun values hvalues => ⟨?_, get?_ofList values, ?_⟩, ?_⟩
  · exact (fromJson_eq_ok_iff_values htext).mpr ⟨values, hvalues, rfl⟩
  · rw [size_ofList, keys_eq_of_readsAs hvalues]
  · intro hkeys listed entries hperm hentries
    have hlisted : (listed.map Prod.fst).Nodup := (hperm.map Prod.fst).nodup_iff.mpr hkeys
    constructor
    · simp only [haccepted, ofHost_eq_ok_iff hentries, exists_record_iff, hperm.mem_iff]
    · intro r t hr ht
      obtain ⟨values, hvalues, rfl⟩ := (ofHost_eq_ok_iff hentries).mp hr
      obtain ⟨values', hvalues', rfl⟩ := (fromJson_eq_ok_iff_values htext).mp ht
      have hget : ∀ key, (ofList values).get? key = (ofList values').get? key := by
        intro key
        ext x
        rw [get?_of_readsAs hlisted hvalues, get?_of_readsAs hkeys hvalues']
        simp only [hperm.mem_iff]
      refine ⟨hget, same_of_get?_eq hget fun key x hx => ?_⟩
      obtain ⟨v, -, hv⟩ := (get?_of_readsAs hlisted hvalues).mp hx
      exact hv.same_self

/-- A truth value, and a text that replaces it. -/
def repeatedText : String := "\x7b\"a\": true, \"a\": \"x\"\x7d"

/-- An integer beyond 64 bits, a text, and a number with a point. -/
def mixedText : String := "\x7b\"n\": 100000000000000000000, \"b\": \"x\", \"a\": 0.0\x7d"

/-- The fields of `mixedText`. -/
def mixedFields : List (String × Json) :=
  [("n", .int 100000000000000000000), ("b", .text "x"),
    ("a", .atom (.number ⟨false, [Digit.zero], [Digit.zero], none⟩))]

/-- The dict of the fields, the last one first. -/
def mixedEntries : List (HostValue × HostValue) :=
  [(.text "a", .float ⟨0⟩), (.text "n", .int 100000000000000000000), (.text "b", .text "x")]

/-- A value that is no scalar is refused even where it is replaced.  The record of three fields is
the same from the text and from the dict. -/
theorem readers_agree_mixed :
    (¬ ∃ r, fromJson repeatedText = .ok r) ∧
    ∃ r t, fromJson mixedText = .ok t ∧ ofHost (.dict mixedEntries) = .ok r ∧
      t.get? "b" = some (.text "x") ∧ t.size = 3 ∧ r.same t = true := by
  have hrepeated : Json.Spells repeatedText.toList
      (.ofFields [("a", .bool true), ("a", .text "x")]) :=
    Json.parse?_eq_some_iff.mp (by cbv)
  have hmixed : Json.Spells mixedText.toList (.ofFields mixedFields) :=
    Json.parse?_eq_some_iff.mp (by cbv)
  have hn : (HostValue.int 100000000000000000000).double? =
      (Numeral.ofInt 100000000000000000000).double? := by decide +kernel
  have ha : (HostValue.float ⟨0⟩).double? =
      (Numeral.mk false [Digit.zero] [Digit.zero] none).double? := by decide +kernel
  have hvalues : List.Forall₂ ReadsAs mixedFields
      [("n", .number (.ofInt 100000000000000000000)), ("b", .text "x"), ("a", .number ⟨0⟩)] :=
    .cons ⟨rfl, Json.IsScalar.number_iff.mpr (hn ▸ by decide +kernel)⟩ (.cons ⟨rfl, .text "x"⟩
      (.cons ⟨rfl, Json.IsScalar.number_iff.mpr (ha ▸ rfl)⟩ .nil))
  have hentries : List.Forall₂ EntryOf mixedEntries (mixedFields.rotate 2) :=
    .cons ⟨rfl, .float ha⟩ (.cons ⟨rfl, .int hn⟩ (.cons ⟨rfl, .text "x"⟩ .nil))
  obtain ⟨-, hinserted, hdict⟩ := readers_agree hmixed
  obtain ⟨htext, hlast, hsize⟩ := hinserted _ hvalues
  obtain ⟨haccepted, hsame⟩ := hdict (by decide) _ mixedEntries (List.rotate_perm mixedFields 2)
    hentries
  obtain ⟨r, hr⟩ := haccepted.mpr ⟨_, htext⟩
  refine ⟨fun hr => ?_, r, _, htext, hr, ?_, ?_, (hsame r _ hr htext).2.2⟩
  · obtain ⟨x, hx⟩ := (readers_agree hrepeated).1.mp hr _ List.mem_cons_self
    cases hx
  · rw [hlast]
    rfl
  · rw [hsize]
    decide

end Record

end Rulebook
