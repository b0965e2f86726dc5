import Rulebook.Proofs.CacheBounds
import Rulebook.Proofs.InfixCompilation

/-! # Evaluation takes every leaf, from left to right

An evaluation looks the leaves up in their order, up to the first that is refused
(`Cached.map_evaluate`).  So on a sound cache it fails exactly if some leaf says no condition, with
the text of the first such leaf, and the cache is left as by looking up the leaves up to that one
(`Cached.runOn_lookUp_refused`); no other leaf and no record changes that.  If every leaf says a
condition, all of them are looked up (`Cached.runOn_lookUp_accepted`), and the answer is the truth
value of the tree (`Tree.verdict_eq_truth`), whether or not a part of the tree had settled it
before.
-/
namespace Rulebook

namespace Condition

/-- The text says a condition. -/
def Accepted (text : String) : Prop := ∃ c, parse text = .ok c

instance (text : String) : Decidable (Accepted text) :=
  decidable_of_iff _ exists_parse_eq_ok_iff.symm

theorem parse_of_not_accepted {text : String} (h : ¬ Accepted text) :
    parse text = .error (.malformedCondition text) := by
  unfold Accepted at h
  unfold parse at h ⊢
  cases hp : parse? text with
  | none => rfl
  | some c => exact absurd ⟨c, by rw [hp]⟩ h

end Condition

/-! ## Looking texts up -/

namespace Cache

/-- The cache after some texts are looked up, one after the other. -/
def lookUps (k : Cache) (texts : List String) : Cache := (texts.map Call.condition).foldl after k

theorem lookUps_append (k : Cache) (texts texts' : List String) :
    k.lookUps (texts ++ texts') = (k.lookUps texts).lookUps texts' := by
  rw [lookUps, List.map_append, List.foldl_append]
  rfl

theorem Sound.lookUps {k : Cache} (h : k.Sound) (texts : List String) : (k.lookUps texts).Sound :=
  h.foldl_after _

end Cache

namespace Cached

open Condition

variable {k : Cache}

/-- A sound cache answers what the text says. -/
theorem runOn_condition (hk : k.Sound) (text : String) :
    (condition text).runOn k = (parse text, k.lookUps [text]) :=
  Prod.ext (faithful_condition text k hk).1 rfl

theorem runOn_lookUp_accepted {texts : List String} (hk : k.Sound)
    (h : ∀ text ∈ texts, Accepted text) : (lookUp texts).runOn k = (.ok (), k.lookUps texts) := by
  induction texts generalizing k with
  | nil => rfl
  | cons text texts ih =>
    obtain ⟨⟨c, hc⟩, hrest⟩ := List.forall_mem_cons.mp h
    rw [lookUp, runOn_bind, runOn_condition hk, hc]
    exact ih (hk.lookUps [text]) hrest

/-- **The first text that is refused** is looked up, and no text behind it. -/
theorem runOn_lookUp_refused {before after : List String} {text : String} (hk : k.Sound)
    (hbefore : ∀ s ∈ before, Accepted s) (htext : ¬ Accepted text) :
    (lookUp (before ++ text :: after)).runOn k =
      (.error (.malformedCondition text), k.lookUps (before ++ [text])) := by
  rw [lookUp_append, runOn_bind, runOn_lookUp_accepted hk hbefore]
  simp only [lookUp]
  rw [runOn_bind, runOn_condition (hk.lookUps before), parse_of_not_accepted htext,
    Cache.lookUps_append]

end Cached

/-! ## Evaluating -/

namespace Tree

open Condition

/-- The truth value of a tree, given those of the texts of its leaves. -/
def truth (holds : String → Bool) : Tree → Bool
  | .leaf text => holds text
  | .node c left right => c.apply (left.truth holds) (right.truth holds)

theorem verdict_eq_truth {t : Tree} (h : ∀ text ∈ t.leaves, Accepted text) (r : Record) :
    t.verdict r = .ok (t.truth r.satisfies) := by
  induction t with
  | leaf text =>
    obtain ⟨c, hc⟩ := h text (by simp)
    rw [verdict, hc, truth, Record.satisfies_of_parse hc]
    rfl
  | node c left right ihl ihr =>
    rw [leaves_node, List.forall_mem_append] at h
    rw [verdict, ihl h.1, ihr h.2]
    rfl

theorem runOn_evaluate_accepted {t : Tree} {k : Cache} (hk : k.Sound) (r : Record)
    (h : ∀ text ∈ t.leaves, Accepted text) :
    (t.evaluate r).runOn k = (.ok (t.truth r.satisfies), k.lookUps t.leaves) := by
  refine Prod.ext ?_ ?_
  · rw [(Cached.faithful_evaluate t r k hk).1, verdict_eq_truth h]
  · rw [Cached.cache_evaluate, Cached.runOn_lookUp_accepted hk h]

theorem runOn_evaluate_refused {t : Tree} {k : Cache} (hk : k.Sound) (r : Record)
    {before after : List String} {text : String} (hleaves : t.leaves = before ++ text :: after)
    (hbefore : ∀ s ∈ before, Accepted s) (htext : ¬ Accepted text) :
    (t.evaluate r).runOn k =
      (.error (.malformedCondition text), k.lookUps (before ++ [text])) := by
  have hmap := Cached.runOn_map (fun _ => ()) (t.evaluate r) k
  rw [Cached.map_evaluate, hleaves, Cached.runOn_lookUp_refused hk hbefore htext] at hmap
  generalize (t.evaluate r).runOn k = answer at hmap ⊢
  rcases answer with ⟨e | b, k'⟩
  · cases hmap
    rfl
  · cases hmap

/-- Among texts that do not all say a condition there is a first that says none. -/
theorem exists_first_refused {texts : List String} (h : ∃ text ∈ texts, ¬ Accepted text) :
    ∃ before text after, texts = before ++ text :: after ∧ (∀ s ∈ before, Accepted s) ∧
      ¬ Accepted text := by
  have hsome : (texts.find? fun text => ¬ Accepted text).isSome := by simpa using h
  obtain ⟨text, htext⟩ := Option.isSome_iff_exists.mp hsome
  obtain ⟨hrefused, before, after, heq, hbefore⟩ := List.find?_eq_some_iff_append.mp htext
  exact ⟨before, text, after, heq, by simpa using hbefore, by simpa using hrefused⟩

/-- **Evaluation is eager, goes from left to right and fails at the first leaf that says no
condition.**  Whatever the record, and whatever the cache holds by then, an evaluation fails exactly
if some leaf says no condition.  The error is then the text of the first such leaf, and the cache is
left as by looking up, once each, the leaves up to and including that one.  Otherwise the answer is
the truth value that the tree has on the record, and the cache is left as by looking up, once each,
all the leaves in their order. -/
theorem evaluates_eagerly (t : Tree) (r : Record) {k : Cache} (hk : k.Reachable) :
    ((∃ e, ((t.evaluate r).runOn k).1 = .error e) ↔ ∃ text ∈ t.leaves, ¬ Accepted text) ∧
    (∀ before text after, t.leaves = before ++ text :: after → (∀ s ∈ before, Accepted s) →
      ¬ Accepted text →
        (t.evaluate r).runOn k =
          (.error (.malformedCondition text), k.lookUps (before ++ [text]))) ∧
    ((∀ text ∈ t.leaves, Accepted text) →
      (t.evaluate r).runOn k = (.ok (t.truth r.satisfies), k.lookUps t.leaves)) := by
  refine ⟨?_, fun before text after => runOn_evaluate_refused hk.sound r,
    runOn_evaluate_accepted hk.sound r⟩
  constructor
  · rintro ⟨e, he⟩
    by_contra hnone
    have hall : ∀ text ∈ t.leaves, Accepted text := by simpa using hnone
    rw [runOn_evaluate_accepted hk.sound r hall] at he
    cases he
  · intro h
    obtain ⟨before, text, after, hleaves, hbefore, htext⟩ := exists_first_refused h
    exact ⟨_, congrArg Prod.fst (runOn_evaluate_refused hk.sound r hleaves hbefore htext)⟩

/-- The tree of `a = 'x' OR` a second operand. -/
def settledBy (second : Tree) : Tree := .node .or (.leaf "a = 'x'") second

/-- The first leaf settles the truth value on the record.  Where the second leaf says no condition
the evaluation fails nevertheless, and the third leaf is not looked up.  Where the second leaf says
one, it is looked up too, and takes the place of the first in a cache for a single condition. -/
theorem evaluates_eagerly_settledBy :
    (∃ e, (((settledBy (.node .and (.leaf "b >") (.leaf "c = 'x'"))).evaluate
        (.ofList [("a", .text "x")])).runOn .initial).1 = .error e) ∧
    ((settledBy (.node .and (.leaf "b >") (.leaf "c = 'x'"))).evaluate
        (.ofList [("a", .text "x")])).runOn .initial =
      (.error (.malformedCondition "b >"), Cache.initial.lookUps ["a = 'x'", "b >"]) ∧
    (Cache.initial.lookUps ["a = 'x'", "b >"]).entries.map Prod.fst = ["a = 'x'"] ∧
    ((settledBy (.leaf "b = 'y'")).evaluate (.ofList [("a", .text "x")])).runOn
        (Cache.initial.after (.setCapacity 1)) =
      (.ok true, (Cache.initial.after (.setCapacity 1)).lookUps ["a = 'x'", "b = 'y'"]) ∧
    ((Cache.initial.after (.setCapacity 1)).lookUps ["a = 'x'", "b = 'y'"]).entries.map Prod.fst =
      ["b = 'y'"] := by
  have ha : Accepted "a = 'x'" := by decide +kernel
  have hb : Accepted "b = 'y'" := by decide +kernel
  have hnot : ¬ Accepted "b >" := by decide +kernel
  have hrefused := evaluates_eagerly (settledBy (.node .and (.leaf "b >") (.leaf "c = 'x'")))
    (.ofList [("a", .text "x")]) Cache.reachable_initial
  have haccepted := (evaluates_eagerly (settledBy (.leaf "b = 'y'")) (.ofList [("a", .text "x")])
    (Cache.reachable_initial.after (.setCapacity 1))).2.2 (by simpa [settledBy] using ⟨ha, hb⟩)
  have htruth : (settledBy (.leaf "b = 'y'")).truth
      (Record.satisfies (.ofList [("a", .text "x")])) = true := by decide +kernel
  rw [htruth] at haccepted
  exact ⟨hrefused.1.mpr ⟨"b >", by decide, hnot⟩,
    hrefused.2.1 ["a = 'x'"] "b >" ["c = 'x'"] rfl (by simpa using ha) hnot, by decide +kernel,
    haccepted, by decide +kernel⟩

end Tree

end Rulebook
