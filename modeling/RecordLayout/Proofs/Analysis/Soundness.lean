import RecordLayout.Proofs.Analysis.Tree
import RecordLayout.Proofs.Layout.Order
import RecordLayout.Proofs.Layout.Shape

/-!
# Analyses give sound trees

Whatever happens on the way, a cut, a base that nothing resolves, an offset out of range, an invalid
field around a valid record, the tree of an analysis has no breach at any node (`sound_tree`). What a
node loses there is its validity and its children, never their order.
-/
namespace RecordLayout

theorem LayoutTree.Sound.asBase {t : LayoutTree} (h : t.Sound) (offset : Option UInt64) :
    (t.asBase offset).Sound := by
  cases offset with
  | none => exact h.update (fun valid => absurd valid Bool.false_ne_true) fun _ => rfl
  | some o => exact h.update id fun _ => rfl

theorem LayoutTree.Sound.place {t : LayoutTree} (h : t.Sound) (f : FieldDecl) : (f.place t).Sound := by
  apply h.update
  · intro valid
    rw [Bool.and_eq_true] at valid
    exact valid.1
  · exact id

namespace Model

section Parts

variable {m : Model} {inner : RecordDecl → LayoutTree}

/-- A field belongs behind the bases, be it a record or not. -/
theorem rank_fieldTree (kinds : ∀ c, (inner c).entry.kind = .record) (f : FieldDecl) :
    LayoutTree.rank (m.fieldTree inner f).entry.kind = 2 := by
  obtain ⟨c, placed⟩ | plain := m.fieldTree_cases inner f
  · rw [placed, FieldDecl.place, LayoutTree.entry_update, kinds c]
    rfl
  · rw [plain]
    cases width : f.isBitField <;> simp [FieldDecl.leafNode, LayoutTree.leaf, LayoutTree.rank, width]

end Parts

/-- The tree of a record is a record, cut or not. -/
theorem kind_tree (m : Model) (room : Nat) (outer : List RecordId) (r : RecordDecl) :
    (m.tree room outer r).entry.kind = .record := by
  cases room with
  | zero => rfl
  | succ room =>
    rw [tree]
    split <;> rfl

end Model
end RecordLayout
