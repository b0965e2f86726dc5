import Rulebook.Host.Tree
import Rulebook.Proofs.DocumentAcceptance

/-! # Dicts and documents are read alike

The reader of host values does with two stacks what recursion does: it looks at a node, reads the
left operand, reads the right one, and joins them, and it stops at the first fault
(`Tree.ofHost_eq_readHost`).

A host value without repeated keys has JSON values (`HostValue.IsJson`).  What it holds under a name
is what they hold under the key (`HostValue.IsJson.valuesOf_cases`): a text with halves of pairs may
have a string for its JSON value, but one with a large character, and no key of a node has one
(`IsSmall`).  So if each of its nodes has the shape of one, both readers see the same nodes; and
since the reader of documents keeps the faults of meaning until it has seen the whole shape, it
reports the same one (`Tree.readNode_of_isJson`).

Which shape it takes is where the readers part.  A document must have a string for every key, and a
dict need not; a dict must have a whole text for `value`, and for a document two halves that make a
pair will do.  `HostValue.WellShaped` has the sort of the keys and that of the values for
parameters, `Tree.fromJson_eq_ofHost` says what the readers do for each, and
`Tree.fromJson_ne_ofHost` that neither sort can be given up.
-/
namespace Rulebook

open Json

namespace Tree

/-! ## Reading by recursion -/

/-- The tree that a host value denotes, by recursion on the value. -/
def readHost (v : HostValue) : Except RuleError Tree :=
  match h : viewHost v with
  | .error e => .error e
  | .ok (.leaf text) => .ok (.leaf text)
  | .ok (.node c left right) =>
    have := sizeOf_viewHost h
    (readHost left).bind fun l => (readHost right).bind fun r => .ok (.node c l r)
termination_by sizeOf v

theorem walkHost_cons_visit (v : HostValue) (tasks : List HostTask) (built : List Tree) :
    walkHost (.visit v :: tasks) built =
      match viewHost v with
      | .error e => .error e
      | .ok (.leaf text) => walkHost tasks (.leaf text :: built)
      | .ok (.node c left right) =>
        walkHost (.visit left :: .visit right :: .join c :: tasks) built := by
  rw [walkHost]
  split <;> rename_i h <;> simp only [h]

/-- Visiting a value is reading it and going on with its tree. -/
theorem walkHost_visit (v : HostValue) (tasks : List HostTask) (built : List Tree) :
    walkHost (.visit v :: tasks) built =
      (readHost v).bind fun t => walkHost tasks (t :: built) := by
  rw [walkHost_cons_visit]
  fun_induction readHost v generalizing tasks built with
  | case1 v e h => rw [h]; rfl
  | case2 v text h => rw [h]; rfl
  | case3 v c left right h _ ihl ihr =>
    simp only [h]
    rw [walkHost_cons_visit, ihl]
    cases readHost left with
    | error e => rfl
    | ok l =>
      simp only [Except.bind]
      rw [walkHost_cons_visit, ihr]
      cases readHost right with
      | error e => rfl
      | ok r => simp only [Except.bind, walkHost]

/-- **The two stacks do what recursion does.** -/
theorem ofHost_eq_readHost (v : HostValue) : ofHost v = readHost v := by
  rw [ofHost, walkHost_visit]
  cases readHost v with
  | error e => rfl
  | ok t => rw [Except.bind, walkHost]

/-- What the recursive reader finds at a node. -/
theorem readHost_eq (v : HostValue) :
    readHost v =
      match viewHost v with
      | .error e => .error e
      | .ok (.leaf text) => .ok (.leaf text)
      | .ok (.node c left right) =>
        (readHost left).bind fun l => (readHost right).bind fun r => .ok (.node c l r) := by
  rw [readHost]
  split <;> rename_i h <;> simp only [h]

end Tree

/-! ## Texts that are not whole -/

/-- The character of a pair lies beyond the first 65536. -/
theorem Json.toNat_pair {a b : Nat} (ha : a < 0x400) (hb : b < 0x400) :
    (Char.ofNat (0x10000 + a * 0x400 + b)).toNat = 0x10000 + a * 0x400 + b := by
  have hvalid : (0x10000 + a * 0x400 + b).isValidChar := .inr ⟨by omega, by omega⟩
  exact congrArg Char.toNat (dif_pos hvalid)

/-- Where halves are joined, a character beyond the first 65536 comes of it. -/
theorem Json.exists_large_of_joinPieces {ps : List Piece} {cs : List Char}
    (h : joinPieces ps = some cs) (hfits : ps.all Piece.fits) (hhalf : ps.any Piece.isHalf) :
    ∃ c ∈ cs, 0x10000 ≤ c.toNat := by
  fun_induction joinPieces ps generalizing cs with
  | case1 => cases hhalf
  | case2 c ps ih =>
    obtain ⟨cs, hcs, rfl⟩ := Option.map_eq_some_iff.mp h
    rw [List.all_cons, Bool.and_eq_true] at hfits
    obtain ⟨x, hx, hlarge⟩ := ih hcs hfits.2 hhalf
    exact ⟨x, List.mem_cons_of_mem _ hx, hlarge⟩
  | case3 a b ps _ =>
    obtain ⟨cs, -, rfl⟩ := Option.map_eq_some_iff.mp h
    rw [List.all_cons, List.all_cons, Bool.and_eq_true, Bool.and_eq_true] at hfits
    have htoNat := toNat_pair (of_decide_eq_true hfits.1) (of_decide_eq_true hfits.2.1)
    exact ⟨_, List.mem_cons_self, by omega⟩
  | case4 => cases h

/-- A text has no character beyond the first 65536. -/
def IsSmall (s : String) : Prop := ∀ c ∈ s.toList, c.toNat < 0x10000

/-- The string of a text that is not whole holds a character that no small text does. -/
theorem BrokenText.joined?_ne {t : BrokenText} {s : String} (hs : IsSmall s) :
    t.joined? ≠ some s := by
  intro h
  obtain ⟨cs, hcs, rfl⟩ := Option.map_eq_some_iff.mp h
  obtain ⟨c, hc, hlarge⟩ := Json.exists_large_of_joinPieces hcs t.fits t.broken
  have := hs c (by rwa [String.toList_ofList])
  omega

theorem Json.NodeSort.isSmall_word (sort : NodeSort) : IsSmall sort.word := by
  cases sort <;> simp [IsSmall, word]

namespace HostValue

/-- Only a small text itself has it for its string. -/
theorem jsonText?_eq_iff {v : HostValue} {s : String} (hs : IsSmall s) :
    v.jsonText? = some (some s) ↔ v = .text s := by
  constructor
  · intro h
    cases v with
    | text s' => rw [Option.some.inj (Option.some.inj h)]
    | brokenText t => exact absurd (Option.some.inj h) (BrokenText.joined?_ne hs)
    | _ => cases h
  · rintro rfl
    rfl

/-- The value is a text, whole or not. -/
def IsText (v : HostValue) : Prop := ∃ s, v.jsonText? = some s

/-- The value is a text that JSON has a string for. -/
def IsSpelled (v : HostValue) : Prop := ∃ s, v.jsonText? = some (some s)

/-- The value is a whole text. -/
def IsWhole (v : HostValue) : Prop := ∃ s, v = .text s

/-! ## Host values and JSON values -/

mutual

/-- The JSON value says what the host value does.  A dict has every key once, and its JSON values
may have the fields in any order. -/
inductive IsJson : HostValue → Json → Prop
  | absent : IsJson .absent .null
  | bool (b : Bool) : IsJson (.bool b) (.bool b)
  | int (i : Int) : IsJson (.int i) (.int i)
  | float {x : Binary64} {n : Numeral} (hfinite : x.isFinite) (h : n.nearest = x) :
    IsJson (.float x) (.atom (.number n))
  | text (s : String) : IsJson (.text s) (.text s)
  | brokenText (t : BrokenText) : IsJson (.brokenText t) (.atom (.text t.joined?))
  | list {items : List HostValue} {vs : List Json} (h : AreItems items vs) :
    IsJson (.list items) (.array vs)
  | dict {entries : List (HostValue × HostValue)} {fields fields' : List (Option String × Json)}
    (h : AreFields entries fields) (hkeys : (entries.map Prod.fst).Nodup)
    (hperm : fields.Perm fields') : IsJson (.dict entries) (.object fields')

/-- The JSON values say what the items of a list do. -/
inductive AreItems : List HostValue → List Json → Prop
  | nil : AreItems [] []
  | cons {v : HostValue} {w : Json} {items : List HostValue} {vs : List Json} (h : IsJson v w)
    (hrest : AreItems items vs) : AreItems (v :: items) (w :: vs)

/-- The fields say what the entries of a dict do. -/
inductive AreFields : List (HostValue × HostValue) → List (Option String × Json) → Prop
  | nil : AreFields [] []
  | cons {key v : HostValue} {s : Option String} {w : Json}
    {entries : List (HostValue × HostValue)} {fields : List (Option String × Json)}
    (hkey : key.jsonText? = some s) (h : IsJson v w) (hrest : AreFields entries fields) :
    AreFields ((key, v) :: entries) ((s, w) :: fields)

end

/-- The value has the shape of a node, and so have its operands.  The keys of a node and its `value`
are texts of the given sorts. -/
inductive WellShaped (isKey isValue : HostValue → Prop) : HostValue → Prop
  | node {entries : List (HostValue × HostValue)} (sort : NodeSort) {value : HostValue}
    (hkeys : ∀ e ∈ entries, isKey e.1)
    (htype : lookup "type" entries = some (.text sort.word))
    (hvalue : lookup "value" entries = some value) (hsort : isValue value)
    (hleft : ∀ v, lookupPresent "left" entries = some v → WellShaped isKey isValue v)
    (hright : ∀ v, lookupPresent "right" entries = some v → WellShaped isKey isValue v) :
    WellShaped isKey isValue (.dict entries)

/-- Keys of one sort and values of the other sort go together. -/
theorem WellShaped.mix {p q p' q' : HostValue → Prop} {v : HostValue} (h : v.WellShaped p q)
    (h' : v.WellShaped p' q') : v.WellShaped p q' := by
  induction h with
  | node sort hkeys htype hvalue hsort hleft hright ihleft ihright =>
    cases h' with
    | node sort' hkeys' htype' hvalue' hsort' hleft' hright' =>
      exact .node sort hkeys htype hvalue' hsort' (fun v hv => ihleft v hv (hleft' v hv))
        fun v hv => ihright v hv (hright' v hv)

/-! ## What a dict holds -/

variable {entries : List (HostValue × HostValue)} {fields : List (Option String × Json)}

theorem mem_of_lookup {name : String} {v : HostValue} (h : lookup name entries = some v) :
    .text name ∈ entries.map Prod.fst := by
  fun_induction lookup name entries with
  | case1 => cases h
  | case2 w rest => exact List.mem_cons_self
  | case3 s w rest _ ih => exact List.mem_cons_of_mem _ (ih h)
  | case4 e rest _ ih => exact List.mem_cons_of_mem _ (ih h)

theorem lookup_cons_of_ne {name : String} {key v : HostValue} (h : key ≠ .text name) :
    lookup name ((key, v) :: entries) = lookup name entries := by
  cases key with
  | text s => exact if_neg fun hs => h (congrArg HostValue.text hs)
  | _ => rfl

/-- **What stands under a name stands under the key**, and nothing else does. -/
theorem AreFields.valuesOf_cases (h : AreFields entries fields)
    (hkeys : (entries.map Prod.fst).Nodup) {name : String} (hname : IsSmall name) :
    (lookup name entries = none ∧ Json.valuesOf name fields = []) ∨
      ∃ v w, lookup name entries = some v ∧ Json.valuesOf name fields = [w] ∧ IsJson v w := by
  induction entries generalizing fields with
  | nil =>
    cases h
    exact .inl ⟨rfl, rfl⟩
  | cons e entries ih =>
    cases h with
    | @cons key v s w _ fields hkey hvw hrest =>
      rw [List.map_cons, List.nodup_cons] at hkeys
      rw [Json.valuesOf_cons]
      by_cases hk : key = .text name
      · subst hk
        obtain rfl := Option.some.inj hkey
        rcases ih hrest hkeys.2 with ⟨-, hno⟩ | ⟨v', -, hv', -⟩
        · exact .inr ⟨v, w, if_pos rfl, by rw [if_pos rfl, hno], hvw⟩
        · exact absurd (mem_of_lookup hv') hkeys.1
      · have hs : s ≠ some name := by
          rintro rfl
          exact hk ((jsonText?_eq_iff hname).mp hkey)
        rw [lookup_cons_of_ne hk, if_neg hs]
        exact ih hrest hkeys.2

/-- The keys that JSON has no string for are broken. -/
theorem AreFields.whole_iff (h : AreFields entries fields) :
    (∀ p ∈ fields, p.1.isSome) ↔ ∀ e ∈ entries, e.1.IsSpelled := by
  induction entries generalizing fields with
  | nil =>
    cases h
    exact iff_of_true (List.forall_mem_nil _) (List.forall_mem_nil _)
  | cons e entries ih =>
    cases h with
    | cons hkey _ hrest =>
      rw [List.forall_mem_cons, List.forall_mem_cons, ih hrest, IsSpelled, hkey]
      simp only [Option.isSome_iff_exists, Option.some.injEq]

theorem IsJson.whole_iff (h : IsJson (.dict entries) (.object fields)) :
    (∀ p ∈ fields, p.1.isSome) ↔ ∀ e ∈ entries, e.1.IsSpelled := by
  cases h with
  | dict h _ hperm => simp only [← h.whole_iff, hperm.mem_iff]

/-- **What a dict holds under a name, its JSON values hold under the key.** -/
theorem IsJson.valuesOf_cases (h : IsJson (.dict entries) (.object fields)) {name : String}
    (hname : IsSmall name) :
    (lookup name entries = none ∧ Json.valuesOf name fields = []) ∨
      ∃ v w, lookup name entries = some v ∧ Json.valuesOf name fields = [w] ∧ IsJson v w := by
  cases h with
  | dict h hkeys hperm =>
    have hvalues : (Json.valuesOf name _).Perm (Json.valuesOf name fields) := hperm.filterMap _
    rcases h.valuesOf_cases hkeys hname with ⟨hnone, hno⟩ | ⟨v, w, hv, hw, hjson⟩
    · rw [hno] at hvalues
      exact .inl ⟨hnone, List.nil_perm.mp hvalues⟩
    · rw [hw] at hvalues
      exact .inr ⟨v, w, hv, (List.singleton_perm.mp hvalues).symm, hjson⟩

/-- A text has its string for its JSON value, and no other value has a string. -/
theorem IsJson.jsonText? {v : HostValue} {s : Option String} (h : v.IsJson (.atom (.text s))) :
    v.jsonText? = some s := by
  generalize hw : Json.atom (.text s) = w at h
  cases h with
  | text => exact congrArg some (Json.Atom.text.inj (Json.atom.inj hw)).symm
  | brokenText => exact congrArg some (Json.Atom.text.inj (Json.atom.inj hw)).symm
  | _ => cases hw

/-- A whole text under a name is the one value under the key. -/
theorem IsJson.valuesOf_eq_text (h : IsJson (.dict entries) (.object fields)) {name s : String}
    (hname : IsSmall name) (hlookup : lookup name entries = some (.text s)) :
    Json.valuesOf name fields = [Json.text s] := by
  rcases h.valuesOf_cases hname with ⟨hnone, -⟩ | ⟨v, w, hv, hw, hjson⟩
  · rw [hlookup] at hnone
    cases hnone
  · obtain rfl := Option.some.inj (hlookup.symm.trans hv)
    cases hjson
    exact hw

/-- The one string under a key is that of a text under the name. -/
theorem IsJson.lookup_of_valuesOf (h : IsJson (.dict entries) (.object fields)) {name s : String}
    (hname : IsSmall name) (hvalues : Json.valuesOf name fields = [Json.text s]) :
    ∃ v, lookup name entries = some v ∧ v.jsonText? = some (some s) := by
  rcases h.valuesOf_cases hname with ⟨-, hno⟩ | ⟨v, w, hv, hw, hjson⟩
  · rw [hvalues] at hno
    cases hno
  · obtain rfl := List.singleton_inj.mp (hw.symm.trans hvalues)
    exact ⟨v, hv, hjson.jsonText?⟩

/-- Under the key of an operand, the absent value is null. -/
theorem IsJson.operand (h : IsJson (.dict entries) (.object fields)) {name : String}
    (hname : IsSmall name) :
    ∃ operand, NullsThen operand (Json.valuesOf name fields) ∧
      Option.Rel IsJson (lookupPresent name entries) operand := by
  rcases h.valuesOf_cases hname with ⟨hnone, hno⟩ | ⟨v, w, hv, hw, hjson⟩
  · refine ⟨none, hno ▸ .none, ?_⟩
    rw [lookupPresent, hnone]
    exact .none
  · rw [lookupPresent, hv, hw]
    cases hjson with
    | absent => exact ⟨none, .null .none, .none⟩
    | _ => exact ⟨some _, .operand nofun, .some (by constructor <;> assumption)⟩

end HostValue

namespace Tree

open HostValue (IsText IsSpelled IsWhole)

variable {entries : List (HostValue × HostValue)}

theorem NodeSlot.isSmall_key (slot : NodeSlot) : IsSmall slot.key := by
  cases slot <;> simp [IsSmall, key]

theorem readHost_dict {sort : NodeSort} {value : String}
    (htype : HostValue.lookup "type" entries = some (.text sort.word))
    (hvalue : HostValue.lookup "value" entries = some (.text value)) :
    readHost (.dict entries) =
      meaning sort value ((HostValue.lookupPresent "left" entries).map readHost)
        ((HostValue.lookupPresent "right" entries).map readHost) := by
  have htype' : requiredText "type" entries = .ok sort.word := by rw [requiredText, htype]
  have hvalue' : requiredText "value" entries = .ok value := by rw [requiredText, hvalue]
  cases sort with
  | operand =>
    rw [readHost_eq, viewHost, htype', hvalue']
    rfl
  | operator =>
    have hview : viewHost (.dict entries) =
        (Connective.parse value).bind fun c => viewOperands value c entries := by
      rw [viewHost, htype', hvalue']
      rfl
    rw [readHost_eq, hview, meaning, NodeFields.operator]
    cases Connective.parse value with
    | error e => rfl
    | ok c =>
      simp only [Except.bind, viewOperands]
      cases HostValue.lookupPresent "left" entries with
      | none => rfl
      | some left => cases HostValue.lookupPresent "right" entries <;> rfl

/-- Why an operator node means nothing. -/
theorem operator_eq_error {word : String} {left right : Option (Except RuleError Tree)}
    {e : RuleError} (h : NodeFields.operator word left right = .error e) :
    e = .unknownOperator word ∨ e = .missingOperand word ∨ left = some (.error e) ∨
      right = some (.error e) := by
  rw [NodeFields.operator, Connective.parse] at h
  cases hc : Connective.ofWord? word with
  | none =>
    rw [hc] at h
    exact .inl (Except.error.inj h).symm
  | some c =>
    rw [hc] at h
    rcases left with _ | _ | l <;> rcases right with _ | _ | r
    all_goals cases h
    all_goals simp

/-- A dict whose nodes have the right shape is refused only for what its nodes mean. -/
theorem error_readHost {isKey : HostValue → Prop} {v : HostValue}
    (h : v.WellShaped isKey IsWhole) {e : RuleError} (he : readHost v = .error e) :
    (∃ word, e = .unknownOperator word) ∨ ∃ word, e = .missingOperand word := by
  induction h generalizing e with
  | node sort _ htype hvalue hwhole _ _ ihleft ihright =>
    obtain ⟨value, rfl⟩ := hwhole
    rw [readHost_dict htype hvalue] at he
    cases sort with
    | operand => cases he
    | operator =>
      rcases operator_eq_error he with rfl | rfl | hleft | hright
      · exact .inl ⟨value, rfl⟩
      · exact .inr ⟨value, rfl⟩
      · obtain ⟨v, hv, he⟩ := Option.map_eq_some_iff.mp hleft
        exact ihleft v hv he
      · obtain ⟨v, hv, he⟩ := Option.map_eq_some_iff.mp hright
        exact ihright v hv he

/-- **Where each node has the right shape, the documents denote what the dicts do.** -/
theorem readNode_of_isJson {v : HostValue} {w : Json} (hv : v.WellShaped IsSpelled IsWhole)
    (h : v.IsJson w) : readNode none w = .ok (readHost v) := by
  induction hv generalizing w with
  | @node entries sort _ hkeys htype hvalue hwhole _ _ ihleft ihright =>
    obtain ⟨value, rfl⟩ := hwhole
    obtain ⟨fields, rfl⟩ : ∃ fields, w = .object fields := by
      cases h
      exact ⟨_, rfl⟩
    obtain ⟨left, hleft, hl⟩ := h.operand NodeSlot.left.isSmall_key
    obtain ⟨right, hright, hr⟩ := h.operand NodeSlot.right.isSmall_key
    have hform : HasForm fields ⟨sort, value, left, right⟩ :=
      ⟨h.whole_iff.mpr hkeys, h.valuesOf_eq_text NodeSlot.type.isSmall_key htype,
        h.valuesOf_eq_text NodeSlot.value.isSmall_key hvalue, hleft, hright⟩
    have hread : ∀ {operand : Option HostValue} {o : Option Json},
        (∀ v, operand = some v → ∀ {w}, v.IsJson w → readNode none w = .ok (readHost v)) →
          Option.Rel HostValue.IsJson operand o →
          Option.Rel (fun w r => readNode none w = .ok r) o (operand.map readHost) := by
      intro operand o ih hrel
      cases hrel with
      | none => exact .none
      | some hjson => exact .some (ih _ rfl hjson)
    rw [readHost_dict htype hvalue]
    exact readNode_eq_ok_iff.mpr
      ⟨nofun, fields, _, _, _, rfl, hform, hread ihleft hl, hread ihright hr, rfl⟩

/-- What has a document of the right shape has the right shape itself, up to the halves of pairs
that the document joins. -/
theorem wellShaped_of_isJson {v : HostValue} {w : Json} (hw : w.WellShaped) (h : v.IsJson w) :
    v.WellShaped IsSpelled IsSpelled := by
  induction hw generalizing v with
  | @node fields n hform _ _ ihleft ihright =>
    obtain ⟨entries, rfl⟩ : ∃ entries, v = .dict entries := by
      cases h
      exact ⟨_, rfl⟩
    have hoperand : ∀ (slot : NodeSlot) {o : Option Json},
        (∀ w, o = some w → ∀ {v : HostValue}, v.IsJson w →
          v.WellShaped IsSpelled IsSpelled) → NullsThen o (valuesOf slot.key fields) →
        ∀ v, HostValue.lookupPresent slot.key entries = some v →
          v.WellShaped IsSpelled IsSpelled := by
      intro slot o ih hnulls v hv
      obtain ⟨o', hnulls', hrel⟩ := h.operand slot.isSmall_key
      obtain rfl := hnulls.unique hnulls'
      rw [hv] at hrel
      cases hrel with
      | some hjson => exact ih _ rfl hjson
    obtain ⟨type, htype, hword⟩ := h.lookup_of_valuesOf NodeSlot.type.isSmall_key hform.type
    obtain ⟨value, hvalue, hspelled⟩ :=
      h.lookup_of_valuesOf NodeSlot.value.isSmall_key hform.value
    obtain rfl := (HostValue.jsonText?_eq_iff n.sort.isSmall_word).mp hword
    exact .node n.sort (h.whole_iff.mp hform.whole) htype hvalue ⟨_, hspelled⟩
      (hoperand .left ihleft hform.left) (hoperand .right ihright hform.right)

/-- **Dicts and documents are read alike**, as far as halves of pairs allow.  If every node of a
host value has the right shape, JSON has a string for each of its keys, and its `value` is a whole
text, the text of its JSON value is read as the tree that the host value denotes, or both are
refused for the same unknown word or the same missing operand.  Every text is refused as a document
whose host value has not the right shape, or has a node with a key or a `value` that JSON has no
string for.  So what is read of a text is what the host value denotes, if each `value` in it is
whole. -/
theorem fromJson_eq_ofHost {v : HostValue} {w : Json} {s : String} (h : v.IsJson w)
    (hs : Spells s.toList w) :
    (v.WellShaped IsSpelled IsWhole → fromJson s = ofHost v ∧ ∀ e, ofHost v = .error e →
      (∃ word, e = .unknownOperator word) ∨ ∃ word, e = .missingOperand word) ∧
    (¬ v.WellShaped IsSpelled IsSpelled → ∃ e, fromJson s = .error e ∧
      e.kind = .deserialization) ∧
    ∀ t, fromJson s = .ok t → v.WellShaped IsText IsWhole → ofHost v = .ok t := by
  rw [ofHost_eq_readHost, fromJson, parse?_eq_some_iff.mpr hs]
  refine ⟨fun hv => ⟨?_, fun e he => error_readHost hv he⟩, fun hv => ?_, fun t ht hwhole => ?_⟩
  · simp only [readNode_of_isJson hv h]
  · cases hread : readNode none w with
    | error fault =>
      simp only [hread]
      exact ⟨_, rfl, rfl⟩
    | ok r => exact absurd (wellShaped_of_isJson (wellShaped_of_readNode hread) h) hv
  · cases hread : readNode none w with
    | error fault => simp [hread] at ht
    | ok r =>
      have hv := (wellShaped_of_isJson (wellShaped_of_readNode hread) h).mix hwhole
      simpa only [readNode_of_isJson hv h] using ht

/-- The first half of a pair, without the second. -/
def loneHalf : BrokenText := ⟨[.high 0], rfl, rfl⟩

/-- Both halves of a pair. -/
def bothHalves : BrokenText := ⟨[.high 0x3D, .low 0x200], rfl, rfl⟩

/-- An operator of an unknown word that lacks its operands, with both halves of a pair for another
key. -/
def unknownWord : HostValue :=
  .dict [(.text "type", .text "operator"), (.text "value", .text "XOR"),
    (.brokenText bothHalves, .int 1), (.text "left", .absent)]

/-- The text of `unknownWord`, its keys in another order. -/
def unknownWordText : String :=
  "\x7b\"value\": \"XOR\", \"\\ud83d\\ude00\": 1, \"left\": null, \"type\": \"operator\"\x7d"

theorem fromJson_eq_ofHost_unknown : fromJson unknownWordText = ofHost unknownWord := by
  let others : List (Option String × Json) :=
    [(some "value", text "XOR"), (some "😀", int 1), (some "left", null)]
  have hspells : parse? unknownWordText =
      some (.object (others ++ [(some "type", text "operator")])) := by with_unfolding_all rfl
  have hjson : unknownWord.IsJson (.object (others ++ [(some "type", text "operator")])) := by
    refine .dict (.cons rfl (.text _) (.cons rfl (.text _) (.cons ?_ (.int 1)
      (.cons rfl .absent .nil)))) ?_ (List.perm_append_singleton _ others).symm
    · decide
    · simp
  have hshape : unknownWord.WellShaped IsSpelled IsWhole := by
    refine .node .operator ?_ rfl rfl ⟨"XOR", rfl⟩ (fun _ h => by cases h) (fun _ h => by cases h)
    simp only [List.forall_mem_cons]
    exact ⟨⟨_, rfl⟩, ⟨_, rfl⟩, ⟨"😀", by decide⟩, ⟨_, rfl⟩, List.forall_mem_nil _⟩
  exact ((fromJson_eq_ofHost hjson (parse?_eq_some_iff.mp hspells)).1 hshape).1

/-- A leaf, with half of a pair for another key. -/
def halfKeyed : HostValue :=
  .dict [(.text "type", .text "operand"), (.text "value", .text "a > 1"),
    (.brokenText loneHalf, .absent)]

/-- The text of `halfKeyed`. -/
def halfKeyedText : String :=
  "\x7b\"type\": \"operand\", \"value\": \"a > 1\", \"\\ud800\": null\x7d"

/-- A leaf, with both halves of a pair for its text. -/
def pairValued : HostValue :=
  .dict [(.text "type", .text "operand"), (.text "value", .brokenText bothHalves)]

/-- The text of `pairValued`. -/
def pairValuedText : String :=
  "\x7b\"type\": \"operand\", \"value\": \"\\ud83d\\ude00\"\x7d"

/-- **Halves of pairs make a difference**, though all nodes have the right shape.  A key that nobody
asks for is read in a document but not in a dict, and two halves are a string in a document but no
whole text in a dict. -/
theorem fromJson_ne_ofHost :
    (halfKeyed.WellShaped IsText IsText ∧
      (∃ w, halfKeyed.IsJson w ∧ Spells halfKeyedText.toList w) ∧
      ofHost halfKeyed = .ok (.leaf "a > 1") ∧
      fromJson halfKeyedText = .error (.document .notJson)) ∧
    (pairValued.WellShaped IsText IsText ∧
      (∃ w, pairValued.IsJson w ∧ Spells pairValuedText.toList w) ∧
      ofHost pairValued = .error (.hostValue (.fieldNotText "value")) ∧
      fromJson pairValuedText = .ok (.leaf "😀")) := by
  have hpair : parse? pairValuedText =
      some (.object [(some "type", text "operand"), (some "value", text "😀")]) := by
    -- by reduction, since the equations do not turn the pair's character into a literal
    with_unfolding_all rfl
  refine ⟨⟨?_, ⟨.object [(some "type", text "operand"), (some "value", text "a > 1"),
    (none, null)], ?_, parse?_eq_some_iff.mp (by cbv)⟩, ?_, by cbv⟩, ?_,
    ⟨_, ?_, parse?_eq_some_iff.mp hpair⟩, ?_, ?_⟩
  · refine .node .operand ?_ rfl rfl ⟨_, rfl⟩ (fun _ h => by cases h) (fun _ h => by cases h)
    simp only [List.forall_mem_cons]
    exact ⟨⟨_, rfl⟩, ⟨_, rfl⟩, ⟨_, rfl⟩, List.forall_mem_nil _⟩
  · exact .dict (.cons rfl (.text _) (.cons rfl (.text _) (.cons rfl .absent .nil)))
      (by simp) (.refl _)
  · rw [ofHost_eq_readHost]
    exact @readHost_dict _ .operand _ rfl rfl
  · refine .node .operand ?_ rfl rfl ⟨_, rfl⟩ (fun _ h => by cases h) (fun _ h => by cases h)
    simp only [List.forall_mem_cons]
    exact ⟨⟨_, rfl⟩, ⟨_, rfl⟩, List.forall_mem_nil _⟩
  · exact .dict (.cons rfl (.text _) (.cons rfl (.brokenText bothHalves) .nil)) (by simp) (.refl _)
  · rw [ofHost_eq_readHost, readHost_eq]
    rfl
  · rw [fromJson, hpair]
    cbv

end Tree

end Rulebook
