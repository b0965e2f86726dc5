import Rulebook.Proofs.JsonReading
import Rulebook.Proofs.NodeShape

/-! # Documents are read back as the trees they come from

Two readers stand behind one another.  The reader of JSON finds the value that was written, since
the document of a tree has no number and no broken string, so that each of its lexemes ends where
its spelling ends (`delimited_document`).  The reader of nodes takes the value apart again, field by
field and with no limit on the depth (`readNode_document`).  So a tree is read back from its text
(`fromJson_toJson`), whatever its leaves hold.
-/
namespace Rulebook

open Json

namespace Tree

/-! ## Writing -/

/-- The lexemes of the document of a leaf. -/
theorem lexemesOnto_document_leaf (text : String) (rest : List Lexeme) :
    (leaf text).document.lexemesOnto rest =
      .openObject ::
        .atom (.text "type") :: .colon :: .atom (.text "operand") :: .comma ::
        .atom (.text "value") :: .colon :: .atom (.text text) ::
      .closeObject :: rest := by
  simp only [document, ofFields, List.map_cons, List.map_nil, lexemesOnto, fieldsOnto, Json.text]

/-- The lexemes of the document of a joined expression. -/
theorem lexemesOnto_document_node (c : Connective) (left right : Tree) (rest : List Lexeme) :
    (node c left right).document.lexemesOnto rest =
      .openObject ::
        .atom (.text "type") :: .colon :: .atom (.text "operator") :: .comma ::
        .atom (.text "value") :: .colon :: .atom (.text c.word) :: .comma ::
        .atom (.text "left") :: .colon :: left.document.lexemesOnto (.comma ::
        .atom (.text "right") :: .colon :: right.document.lexemesOnto (
      .closeObject :: rest)) := by
  simp only [document, ofFields, List.map_cons, List.map_nil, lexemesOnto, fieldsOnto, Json.text]

/-- A document holds strings only, and all of them whole. -/
theorem delimited_document (t : Tree) {rest : List Lexeme} (h : ∀ l ∈ rest, l.Delimited) :
    ∀ l ∈ t.document.lexemesOnto rest, l.Delimited := by
  induction t generalizing rest with
  | leaf text =>
    rw [lexemesOnto_document_leaf]
    simpa only [List.forall_mem_cons, Lexeme.Delimited, true_and] using h
  | node c left right ihLeft ihRight =>
    -- from the back to the front, since each operand stands before what is delimited already
    have hclose : ∀ l ∈ Lexeme.closeObject :: rest, l.Delimited :=
      List.forall_mem_cons.mpr ⟨trivial, h⟩
    have hright : ∀ l ∈ Lexeme.comma :: .atom (.text "right") :: .colon ::
        right.document.lexemesOnto (.closeObject :: rest), l.Delimited := by
      simpa only [List.forall_mem_cons, Lexeme.Delimited, true_and] using ihRight hclose
    have hleft := ihLeft hright
    rw [lexemesOnto_document_node]
    simpa only [List.forall_mem_cons, Lexeme.Delimited, true_and] using hleft

theorem parse?_toJson (t : Tree) : parse? t.toJson = some t.document :=
  parse?_compact (delimited_document t (List.forall_mem_nil _))

/-! ## Reading -/

/-- An operand is never taken for one that is missing. -/
theorem isNull_document (t : Tree) : t.document.isNull = false := by
  cases t <;> rfl

/-- The reader of nodes takes a document apart into the tree. -/
theorem readNode_document (t : Tree) : readNode none t.document = .ok (.ok t) := by
  induction t with
  | leaf text =>
    simp [document, ofFields, readNode, readFields, Json.text, asText, NodeFields.empty,
      NodeFields.finish, Except.bind]
  | node c left right ihLeft ihRight =>
    -- each key is met once, and the operands are read by the induction hypotheses
    simp [document, ofFields, readNode, readFields, Json.text, asText, NodeFields.empty,
      NodeFields.finish, NodeFields.operator, Except.bind, isNull_document, ihLeft, ihRight]
    rfl

/-- **Documents round trip.**  Every tree, however deep and whatever its leaves hold, is read back
from the text of its document, so that no two trees share a text. -/
theorem fromJson_toJson :
    (∀ t : Tree, fromJson t.toJson = .ok t) ∧ Function.Injective toJson := by
  have hread : ∀ t : Tree, fromJson t.toJson = .ok t := fun t =>
    (fromJson_eq_ok_iff_readNode (parse?_toJson t)).mpr (readNode_document t)
  refine ⟨hread, fun s t h => ?_⟩
  have hs : fromJson t.toJson = .ok s := by rw [← h, hread s]
  rw [hread t] at hs
  exact (Except.ok.inj hs).symm

end Tree

end Rulebook
