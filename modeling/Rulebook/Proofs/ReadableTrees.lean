import Rulebook.Proofs.Compilation

/-! # Trees that can be read

A text is *readable* when it says a condition on an attribute that is no connective, and a tree is
readable when all its leaves are.  Readable texts are exactly the well-formed clauses between blanks
whose attribute is no connective (`Condition.readable_iff`), that is, what the scanner cuts out of a
rule, with blanks around it.

Trees that come out of the compiler are readable, and so are trees joined from readable ones
(`Tree.Compiled.readable`).  The leaves of compiled trees have no blanks around them
(`Tree.Compiled.trimLeaves_eq`).
-/
namespace Rulebook

namespace Condition

/-- The text says a condition on an attribute that is no connective. -/
def Readable (text : String) : Prop :=
  ∃ c, parse text = .ok c ∧ c.attr ≠ "AND" ∧ c.attr ≠ "OR"

theorem readable_iff_any {text : String} :
    Readable text ↔ (parse? text).any (fun c => c.attr ≠ "AND" ∧ c.attr ≠ "OR") := by
  rw [Option.any_eq_true]
  simp only [Readable, parse_eq_ok_iff, decide_eq_true_eq]

instance (text : String) : Decidable (Readable text) := decidable_of_iff _ readable_iff_any.symm

theorem ofWord?_eq_none_iff {w : String} :
    Connective.ofWord? w = none ↔ w ≠ "AND" ∧ w ≠ "OR" := by
  constructor
  · intro h
    refine ⟨?_, ?_⟩ <;> rintro rfl <;> exact absurd h (by decide)
  · rintro ⟨ha, ho⟩
    rw [Connective.ofWord?, if_neg ha, if_neg ho]

/-- **The readable texts are the well-formed clauses between blanks** whose attribute is no
connective. -/
theorem readable_iff {text : String} :
    Readable text ↔ ∃ (before : List Char) (clause : Clause) (after : List Char),
      text.toList = before ++ (clause.spelling ++ after) ∧ (∀ x ∈ before, isBlank x) ∧
        (∀ x ∈ after, isBlank x) ∧ clause.WellFormed ∧
          Connective.ofWord? (String.ofList clause.attr) = none := by
  constructor
  · rintro ⟨c, hc, hattr⟩
    obtain ⟨before, clause, after, ht, hb, ha, hwf, rfl⟩ :=
      parse?_eq_some_iff.mp (parse_eq_ok_iff.mp hc)
    exact ⟨before, clause, after, ht, hb, ha, hwf, ofWord?_eq_none_iff.mpr hattr⟩
  · rintro ⟨before, clause, after, ht, hb, ha, hwf, hattr⟩
    refine ⟨clause.condition, parse_eq_ok_iff.mpr ?_, ofWord?_eq_none_iff.mp hattr⟩
    exact parse?_eq_some_iff.mpr ⟨before, clause, after, ht, hb, ha, hwf, rfl⟩

/-- Every condition that the scanner finds is readable and has no blanks around it. -/
theorem readable_of_mem_scan {text : String} {cs : List Char}
    (h : .condition text ∈ Token.scan cs) : Readable text ∧ trimmed text = text := by
  obtain ⟨clause, hwf, hattr, rfl⟩ := Token.exists_clause_of_mem_scan h
  have hnil : ∀ x ∈ ([] : List Char), isBlank x := fun x hx => absurd hx List.not_mem_nil
  constructor
  · refine readable_iff.mpr ⟨[], clause, [], ?_, hnil, hnil, hwf, hattr⟩
    simp
  · have ht := hwf.trimBlank_append hnil hnil
    rw [List.nil_append, List.append_nil] at ht
    rw [trimmed, String.toList_ofList, ht]

end Condition

namespace Tree

/-- All leaves of the tree are readable. -/
def Readable (t : Tree) : Prop := ∀ text ∈ t.leaves, Condition.Readable text

instance (t : Tree) : Decidable t.Readable :=
  inferInstanceAs (Decidable (∀ text ∈ t.leaves, Condition.Readable text))

/-- The tree without the blanks around its leaves. -/
def trimLeaves : Tree → Tree
  | .leaf text => .leaf (trimmed text)
  | .node c left right => .node c left.trimLeaves right.trimLeaves

theorem readable_leaf {text : String} : (leaf text).Readable ↔ Condition.Readable text := by
  simp [Readable]

theorem readable_node {c : Connective} {left right : Tree} :
    (node c left right).Readable ↔ left.Readable ∧ right.Readable := by
  simp only [Readable, leaves_node, List.mem_append, or_imp, forall_and]

theorem trimLeaves_eq_self_iff {t : Tree} :
    t.trimLeaves = t ↔ ∀ text ∈ t.leaves, trimmed text = text := by
  induction t with
  | leaf text => simp [trimLeaves]
  | node c left right ihl ihr =>
    simp only [trimLeaves, node.injEq, true_and, ihl, ihr, leaves_node, List.mem_append, or_imp,
      forall_and]

theorem leaves_foldl_node (c : Connective) (ts : List Tree) (t : Tree) :
    (ts.foldl (node c) t).leaves = t.leaves ++ ts.flatMap leaves := by
  induction ts generalizing t with
  | nil => simp
  | cons next ts ih =>
    rw [List.foldl_cons, ih, leaves_node, List.flatMap_cons, List.append_assoc]

/-- The leaves of joined trees are the leaves of the trees in their order. -/
theorem leaves_joinAll {c : Connective} {ts : List Tree} {t : Tree} (h : joinAll c ts = some t) :
    t.leaves = ts.flatMap leaves := by
  cases ts with
  | nil => cases h
  | cons first rest =>
    obtain rfl := Option.some.inj h
    exact leaves_foldl_node c rest first

theorem combine_eq_ok_some_iff {c : Connective} {ts : List Tree} {t : Tree} :
    (combine c ts).result = .ok (some t) ↔ joinAll c ts = some t := by
  unfold combine
  cases joinAll c ts with
  | none => exact ⟨fun h => (by cases h), fun h => (by cases h)⟩
  | some t' => simp

/-- Trees that come out of the compiler: those of rules, under any policy, and those joined from
such trees. -/
inductive Compiled : Tree → Prop
  | rule {policy : ParenPolicy} {rule : String} {t : Tree}
    (h : (compile policy rule).result = .ok t) : Compiled t
  | joined {c : Connective} {ts : List Tree} {t : Tree} (hts : ∀ x ∈ ts, Compiled x)
    (h : (combine c ts).result = .ok (some t)) : Compiled t

/-- What holds of all leaves of some trees holds of all leaves of the tree joined from them. -/
theorem forall_mem_leaves_of_combine {p : String → Prop} {c : Connective} {ts : List Tree}
    {t : Tree} (h : (combine c ts).result = .ok (some t))
    (hts : ∀ x ∈ ts, ∀ text ∈ x.leaves, p text) : ∀ text ∈ t.leaves, p text := by
  rw [leaves_joinAll (combine_eq_ok_some_iff.mp h)]
  intro text ht
  obtain ⟨x, hx, hxt⟩ := List.mem_flatMap.mp ht
  exact hts x hx text hxt

/-- Every leaf of a compiled tree is a condition that the scanner found in some text. -/
theorem Compiled.exists_mem_scan {t : Tree} (h : t.Compiled) :
    ∀ text ∈ t.leaves, ∃ cs, .condition text ∈ Token.scan cs := by
  induction h with
  | @rule policy rule t h =>
    intro text ht
    rw [leaves_of_compile h] at ht
    exact ⟨rule.toList, Token.mem_conditions_iff.mp ht⟩
  | joined _ h ih => exact forall_mem_leaves_of_combine h ih

/-- **Compiled trees are readable.** -/
theorem Compiled.readable {t : Tree} (h : t.Compiled) : t.Readable := by
  intro text ht
  obtain ⟨cs, hcs⟩ := h.exists_mem_scan text ht
  exact (Condition.readable_of_mem_scan hcs).1

theorem Compiled.trimLeaves_eq {t : Tree} (h : t.Compiled) : t.trimLeaves = t := by
  refine trimLeaves_eq_self_iff.mpr fun text ht => ?_
  obtain ⟨cs, hcs⟩ := h.exists_mem_scan text ht
  exact (Condition.readable_of_mem_scan hcs).2

end Tree

end Rulebook
