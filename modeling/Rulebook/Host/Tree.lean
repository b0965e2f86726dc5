import Rulebook.Host.Value
import Rulebook.Error
import Rulebook.Tree

/-!
# Trees as dicts

Trees are handed over as dicts, in the form of their documents. A reader looks at a node before its
operands and at the left operand before the right one, and gives the first fault it meets. It never
looks below an operand, nor at entries it does not need.

The reader keeps two stacks, of what is still to be done and of the trees that are finished, so that
the depth of a dict costs no more than memory. The writer keeps a list of dicts that are still to be
filled: it links the dicts of the operands into the dict of their node before it fills them.
-/

namespace Rulebook

namespace Tree

/-- What a dict that is being filled holds under a name: a text, or another such dict by its
place. -/
inductive HostCell
  | text (s : String)
  | dict (place : Nat)

/-- The dicts of a tree while they are being filled, each at its place. -/
abbrev HostHeap := Array (List (String × HostCell))

/-- The entries of the dict of a leaf. -/
def leafCells (text : String) : List (String × HostCell) :=
  [("type", .text "operand"), ("value", .text text)]

/-- The entries of the dict of a node with the dicts of its operands at the given places. -/
def nodeCells (c : Connective) (left right : Nat) : List (String × HostCell) :=
  [("type", .text "operator"), ("value", .text c.word), ("left", .dict left),
    ("right", .dict right)]

/-- Makes the dicts of two operands and fills the dict of their node, at the given place. -/
def linkOperands (heap : HostHeap) (place : Nat) (c : Connective) : HostHeap :=
  ((heap.push []).push []).setIfInBounds place (nodeCells c heap.size (heap.size + 1))

/-- The dicts that the trees of a list need. -/
def fillWork : List (Tree × Nat) → Nat
  | [] => 0
  | (t, _) :: rest => t.size + fillWork rest

/-- Fills the dicts at the given places with their trees, one after the other. The dicts of operands
are made when their node is met, and filled later. -/
def fillDicts : List (Tree × Nat) → HostHeap → HostHeap
  | [], heap => heap
  | (.leaf text, place) :: pending, heap =>
    fillDicts pending (heap.setIfInBounds place (leafCells text))
  | (.node c left right, place) :: pending, heap =>
    fillDicts ((left, heap.size) :: (right, heap.size + 1) :: pending) (linkOperands heap place c)
termination_by pending => fillWork pending
decreasing_by
  all_goals simp only [fillWork, size]; omega

/-- The dict at a place, with the dicts that stand in it. These were made after it, so the last case
does not occur. -/
def dictAt (heap : HostHeap) (place : Nat) : HostValue :=
  .ofFields <| (heap.getD place []).map fun (key, cell) => (key, match cell with
    | .text s => .text s
    | .dict next => if _ : place < next ∧ next < heap.size then dictAt heap next else .absent)
termination_by heap.size - place

/-- The dict of a tree. -/
def toHost (t : Tree) : HostValue := dictAt (fillDicts [(t, 0)] #[[]]) 0

/-- The text under a name that a node must have. -/
def requiredText (name : String) (entries : List (HostValue × HostValue)) :
    Except RuleError String :=
  match HostValue.lookup name entries with
  | none => .error (.hostValue (.missingField name))
  | some (.text s) => .ok s
  | some _ => .error (.hostValue (.fieldNotText name))

/-- What a dict says of its node: a condition, or a connective and where its operands are. -/
inductive HostNode
  | leaf (text : String)
  | node (c : Connective) (left right : HostValue)

/-- Looks for the operands of an operator with the given word. -/
def viewOperands (word : String) (c : Connective) (entries : List (HostValue × HostValue)) :
    Except RuleError HostNode :=
  match HostValue.lookupPresent "left" entries, HostValue.lookupPresent "right" entries with
  | some left, some right => .ok (.node c left right)
  | _, _ => .error (.missingOperand word)

/-- Looks at a node, not at its operands. -/
def viewHost : HostValue → Except RuleError HostNode
  | .dict entries => do
    let type ← requiredText "type" entries
    let value ← requiredText "value" entries
    if type = "operand" then return .leaf value
    else if type = "operator" then viewOperands value (← Connective.parse value) entries
    else .error (.hostValue (.unknownNodeType type))
  | _ => .error (.hostValue .nodeNotDict)

/-- The operands of a node take less room than the node. -/
theorem sizeOf_viewHost {v left right : HostValue} {c : Connective}
    (h : viewHost v = .ok (.node c left right)) : sizeOf left + sizeOf right + 1 < sizeOf v := by
  unfold viewHost at h
  split at h
  · rename_i entries
    have hview : ∃ word c', viewOperands word c' entries = .ok (.node c left right) := by
      simp only [bind, Except.bind] at h
      repeat' split at h
      any_goals cases h
      exact ⟨_, _, h⟩
    obtain ⟨word, c', hview⟩ := hview
    unfold viewOperands at hview
    split at hview
    · rename_i l r hl hr
      cases hview
      have := HostValue.sizeOf_lookup_add (by decide) (HostValue.lookup_of_lookupPresent hl)
        (HostValue.lookup_of_lookupPresent hr)
      simp only [HostValue.dict.sizeOf_spec]
      omega
    · cases hview
  · cases h

/-- Something that is still to be done: to read a node, or to join the two latest trees. -/
inductive HostTask
  | visit (v : HostValue)
  | join (c : Connective)

/-- The work that tasks stand for. -/
noncomputable def hostWork : List HostTask → Nat
  | [] => 0
  | .visit v :: rest => 2 * sizeOf v + 1 + hostWork rest
  | .join _ :: rest => 1 + hostWork rest

/-- Does the tasks one after the other, with the finished trees given latest first. A join always
comes behind both of its operands, and a tree is finished at the end, so the last cases do not
occur. -/
def walkHost : List HostTask → List Tree → Except RuleError Tree
  | .visit v :: tasks, built =>
    match h : viewHost v with
    | .error e => .error e
    | .ok (.leaf text) => walkHost tasks (.leaf text :: built)
    | .ok (.node c left right) =>
      have := sizeOf_viewHost h
      walkHost (.visit left :: .visit right :: .join c :: tasks) built
  | .join c :: tasks, right :: left :: built => walkHost tasks (.node c left right :: built)
  | [], t :: _ => .ok t
  | _, _ => .error (.hostValue .emptyDocument)
termination_by tasks => hostWork tasks
decreasing_by
  all_goals simp only [hostWork]; omega

/-- The tree that a host value denotes. -/
def ofHost (v : HostValue) : Except RuleError Tree := walkHost [.visit v] []

end Tree

end Rulebook
