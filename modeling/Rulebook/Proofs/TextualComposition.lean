import Mathlib.Data.List.Forall2
import Rulebook.Proofs.Acceptance
import Rulebook.Proofs.TokenSeams

/-! # Joining rules as texts

Rules can be joined as texts: the first one in parentheses, and then, for every further one, what
there is so far in parentheses, a connective, and the rule in parentheses (`composed`).  If the
quotes of a rule are all inside its conditions, the scanner finds the tokens of the rule between its
parentheses, and behind them whatever follows (`scan_parenthesized_append`).  So the tokens of the
whole text are those of an arrangement with a group for every rule, and a group is listed as what is
in it.

Main statement: the text compiles, under either policy, to the tree that joins the trees of the
rules (`compile_composed`).
-/
namespace Rulebook.Tree

open Token Infix

/-- A rule in parentheses. -/
def parenthesized (rule : String) : String := "(" ++ rule ++ ")"

/-- The text so far and a further rule, both in parentheses, under a connective. -/
def joinedText (c : Connective) (text rule : String) : String :=
  parenthesized text ++ " " ++ c.word ++ " " ++ parenthesized rule

/-- The text that joins rules from the left under a connective. -/
def composed (c : Connective) : List String → String
  | [] => ""
  | rule :: rules => rules.foldl (joinedText c) (parenthesized rule)

/-- The rule compiles to the tree under the rejecting policy, and its quotes are all inside its
conditions. -/
structure Composable (rule : String) (t : Tree) : Prop where
  compiles : (compile .reject rule).result = .ok t
  quotes : QuotesInside rule.toList

/-- Wherever the text stands, its tokens are those of an arrangement that lists the tree. -/
def Arranged (text : String) (t : Tree) : Prop :=
  ∃ a : Arrangement .expression,
    (∀ rest, scan (text.toList ++ rest) = a.tokens ++ scan rest) ∧ a.listing = t.postorder

variable {text rule : String} {t r : Tree}

theorem scan_parenthesized_append {a : Arrangement .expression} (hq : QuotesInside rule.toList)
    (ha : a.tokens = scan rule.toList) (rest : List Char) :
    scan ((parenthesized rule).toList ++ rest) =
      (Arrangement.group .vacant a).tokens ++ scan rest := by
  have htext : (parenthesized rule).toList ++ rest = '(' :: (rule.toList ++ ')' :: rest) := by
    simp [parenthesized]
  rw [htext, scan_openParen, scan_append_closeParen hq, ← ha]
  simp [Arrangement.tokens]

/-- A rule in parentheses is a group. -/
theorem Composable.arranged (h : Composable rule t) : Arranged (parenthesized rule) t := by
  obtain ⟨a, ha, hlisting⟩ := compile_reject_eq_ok_iff.mp h.compiles
  exact ⟨.ofTerm (.ofPlace (.group .vacant a)), scan_parenthesized_append h.quotes ha, hlisting⟩

/-- The arrangement of two groups under a connective. -/
def joinedGroups (c : Connective) (left right : Arrangement .expression) :
    Arrangement .expression :=
  match c with
  | .and => .ofTerm (.and (.ofPlace (.group .vacant left)) (.group .vacant right))
  | .or => .or (.ofTerm (.ofPlace (.group .vacant left))) (.ofPlace (.group .vacant right))

theorem tokens_joinedGroups (c : Connective) (left right : Arrangement .expression) :
    (joinedGroups c left right).tokens =
      (Arrangement.group .vacant left).tokens ++ .connective c ::
        (Arrangement.group .vacant right).tokens := by
  cases c <;> rfl

theorem listing_joinedGroups (c : Connective) (left right : Arrangement .expression) :
    (joinedGroups c left right).listing = left.listing ++ right.listing ++ [.connective c] := by
  cases c <;> rfl

/-- Joining a text with a rule puts two groups under the connective. -/
theorem Arranged.joined (h : Arranged text t) (hr : Composable rule r) (c : Connective) :
    Arranged (joinedText c text rule) (.node c t r) := by
  obtain ⟨a, ha, hlisting⟩ := h
  obtain ⟨b, hb, hlisting'⟩ := compile_reject_eq_ok_iff.mp hr.compiles
  refine ⟨joinedGroups c a b, fun rest => ?_, ?_⟩
  · have hspace : ∀ x ∈ [' '], isBlank x := List.all_eq_true.mp (by decide)
    have hblank : ∀ cs, scan (' ' :: cs) = scan cs := scan_blanks_append hspace
    have htext : (joinedText c text rule).toList ++ rest = '(' :: (text.toList ++ ')' :: ' ' ::
        (c.word.toList ++ ' ' :: ((parenthesized rule).toList ++ rest))) := by
      simp [joinedText, parenthesized]
    rw [htext, scan_openParen, ha, scan_closeParen, hblank,
      scan_connective_append c (stops_cons.mpr (by decide)), hblank,
      scan_parenthesized_append hr.quotes hb, tokens_joinedGroups]
    simp [Arrangement.tokens]
  · rw [listing_joinedGroups, hlisting, hlisting', postorder]

theorem Arranged.foldl (h : Arranged text t) {rules : List String} {ts : List Tree}
    (hrules : List.Forall₂ Composable rules ts) (c : Connective) :
    Arranged (rules.foldl (joinedText c) text) (ts.foldl (.node c) t) := by
  induction hrules generalizing text t with
  | nil => exact h
  | cons hr _ ih => exact ih (h.joined hr c)

/-- **A text compiles to the tree that its arrangement lists**, under either policy. -/
theorem Arranged.compile (h : Arranged text t) (policy : ParenPolicy) :
    (compile policy text).result = .ok t := by
  obtain ⟨a, ha, hlisting⟩ := h
  have htokens := ha []
  rw [List.append_nil, scan_nil, List.append_nil] at htokens
  refine compile_eq_ok_iff.mpr ⟨fun hnil => ?_, a.listing, ?_, ofPostorder_eq_ok_iff.mpr hlisting⟩
  · obtain rfl : a = .ofTerm (.ofPlace .vacant) := tokens_injective (htokens.symm.trans hnil)
    exact t.postorder_ne_nil hlisting.symm
  · rw [htokens, a.toPostorder_tokens]

/-- **Joining rules as texts is joining their trees.**  Take rules that compile under the rejecting
policy and whose quotes are all inside their conditions.  Their text, joined under a connective,
compiles under either policy to the tree that joins their trees under the connective; for a single
rule that is its own tree. -/
theorem compile_composed (c : Connective) {rules : List String} {ts : List Tree}
    (h : List.Forall₂ Composable rules ts) (hne : rules ≠ []) (policy : ParenPolicy) :
    (∃ t, (Tree.compile policy (composed c rules)).result = .ok t ∧
      (combine c ts).result = .ok (some t)) ∧
    ∀ rule t, rules = [rule] → ts = [t] → composed c rules = "(" ++ rule ++ ")" ∧
      (Tree.compile policy (composed c rules)).result = .ok t := by
  cases h with
  | nil => exact absurd rfl hne
  | @cons rule t rules ts hrule hrules =>
    have hcompile := (hrule.arranged.foldl hrules c).compile policy
    refine ⟨⟨_, hcompile, rfl⟩, ?_⟩
    rintro _ _ ⟨⟩ ⟨⟩
    exact ⟨rfl, hcompile⟩

set_option maxRecDepth 1000 in
/-- Two rules with words and marks that are no tokens, one of them with parentheses in quotes. -/
theorem compile_composed_garbled :
    (Tree.compile .drain "((if a > 1;)) AND (b = ')(' c)").result =
      .ok (.node .and (.leaf "a > 1") (.leaf "b = ')('")) := by
  have hfirst : (Tree.compile .reject "if a > 1;").result = .ok (.leaf "a > 1") := by cbv
  have hsecond : (Tree.compile .reject "b = ')(' c").result = .ok (.leaf "b = ')('") := by cbv
  have hquotes : QuotesInside "if a > 1;".toList ∧ QuotesInside "b = ')(' c".toList := by
    rw [quotesInside_iff, quotesInside_iff]
    decide +kernel
  obtain ⟨⟨t, ht, hjoin⟩, -⟩ := compile_composed .and
    (.cons ⟨hfirst, hquotes.1⟩ (.cons ⟨hsecond, hquotes.2⟩ .nil)) (List.cons_ne_nil _ _) .drain
  cases hjoin
  exact ht

end Rulebook.Tree
