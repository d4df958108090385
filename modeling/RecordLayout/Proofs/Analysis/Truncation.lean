import Mathlib
import RecordLayout.Proofs.Analysis.Depth
import RecordLayout.Proofs.Analysis.Expansion

/-!
# What marks take away

An analysis that starts with more marks gives the same tree, less what is inside some records: a record that is
marked, or that there is no room for, is cut, and every node around it becomes invalid (`CutOnce`). The cuts may
fall at other places than with fewer marks, but there is nothing that only more marks bring (`more_marks_truncate`).
-/
namespace RecordLayout
open Relation

namespace LayoutTree

/-- `t'` is `t` with one record in it cut: the record's node is left without children and invalid, with the rest of
its entry as it was, and the nodes around it are invalid. -/
inductive CutOnce : LayoutTree → LayoutTree → Prop
  | here {e : LayoutEntry} {cs : List LayoutTree} (record : e.kind = .record ∨ e.kind = .nonVirtualBase) :
      CutOnce (.node e cs) (.leaf { e with valid := false })
  | inside {e : LayoutEntry} {before after : List LayoutTree} {t t' : LayoutTree} (cut : CutOnce t t') :
      CutOnce (.node e (before ++ t :: after)) (.node { e with valid := false } (before ++ t' :: after))

/-- `t'` is `t` with some records in it cut, or none. -/
abbrev Truncates (t t' : LayoutTree) : Prop := ReflTransGen CutOnce t t'

theorem CutOnce.invalid {t t' : LayoutTree} (cut : CutOnce t t') : t'.entry.valid = false := by
  cases cut <;> rfl

/-- Where the root is still valid nothing has been cut. -/
theorem Truncates.eq_of_valid {t t' : LayoutTree} (less : Truncates t t') (valid : t'.entry.valid = true) :
    t' = t := by
  cases less with
  | refl => rfl
  | tail _ last =>
    rw [last.invalid] at valid
    cases valid

/-- A change of the root that goes by the other parts of its entry can be made before a cut or after it. -/
theorem CutOnce.update {t t' : LayoutTree} (cut : CutOnce t t') {f : LayoutEntry → LayoutEntry}
    (invalid : ∀ e, f { e with valid := false } = { f e with valid := false })
    (record : ∀ e, e.kind = .record ∨ e.kind = .nonVirtualBase → (f e).kind = .record ∨ (f e).kind = .nonVirtualBase) :
    CutOnce (t.update f) (t'.update f) := by
  cases cut with
  | here kind =>
    rw [leaf, LayoutTree.update, LayoutTree.update, invalid]
    exact .here (record _ kind)
  | inside cut =>
    rw [LayoutTree.update, LayoutTree.update, invalid]
    exact .inside cut

theorem Truncates.update {t t' : LayoutTree} (less : Truncates t t') {f : LayoutEntry → LayoutEntry}
    (invalid : ∀ e, f { e with valid := false } = { f e with valid := false })
    (record : ∀ e, e.kind = .record ∨ e.kind = .nonVirtualBase → (f e).kind = .record ∨ (f e).kind = .nonVirtualBase) :
    Truncates (t.update f) (t'.update f) :=
  ReflTransGen.lift (LayoutTree.update f) (fun _ _ cut => cut.update invalid record) t t' less

/-- The node around a cut child is invalid because that child is. -/
theorem CutOnce.ofChildren {t t' : LayoutTree} (cut : CutOnce t t') (e : LayoutEntry) (before after : List LayoutTree) :
    CutOnce (.ofChildren e (before ++ t :: after)) (.ofChildren e (before ++ t' :: after)) := by
  have spoiled : (e.valid && (before ++ t' :: after).all (·.entry.valid)) = false := by
    simp [cut.invalid]
  rw [LayoutTree.ofChildren, LayoutTree.ofChildren, spoiled]
  exact .inside cut

theorem truncates_ofChildren (e : LayoutEntry) {cs cs' : List LayoutTree} (each : List.Forall₂ Truncates cs cs') :
    Truncates (ofChildren e cs) (ofChildren e cs') := by
  -- One child after the other is truncated, with those before it as they are in the end.
  have go : ∀ before : List LayoutTree, Truncates (ofChildren e (before ++ cs)) (ofChildren e (before ++ cs')) := by
    induction each with
    | nil => exact fun _ => .refl
    | @cons t t' cs cs' here _ ih =>
      intro before
      have first : Truncates (ofChildren e (before ++ t :: cs)) (ofChildren e (before ++ t' :: cs)) :=
        ReflTransGen.lift (fun u => ofChildren e (before ++ u :: cs)) (fun _ _ cut => cut.ofChildren e before cs)
          t t' here
      have rest := ih (before ++ [t'])
      rw [List.append_assoc, List.append_assoc, List.singleton_append, List.singleton_append] at rest
      exact first.trans rest
  exact go []

end LayoutTree

open LayoutTree

namespace Model

section Step

variable {m : Model} {inner inner' : RecordDecl → LayoutTree} (each : ∀ c, Truncates (inner c) (inner' c))
include each

theorem truncates_baseTree (b : BaseSpec) : Truncates (m.baseTree inner b) (m.baseTree inner' b) := by
  have named : Truncates (m.namedTree inner b.record) (m.namedTree inner' b.record) := by
    unfold namedTree
    cases m.record? b.record with
    | none => exact .refl
    | some c =>
      dsimp only
      split
      · exact each c
      · exact .refl
  unfold baseTree
  cases b.offsetBits? with
  | none => exact named.update (fun _ => rfl) fun _ _ => .inr rfl
  | some o => exact named.update (fun _ => rfl) fun _ _ => .inr rfl

theorem truncates_fieldTree (f : FieldDecl) : Truncates (m.fieldTree inner f) (m.fieldTree inner' f) := by
  unfold fieldTree
  cases f.type.record.bind m.complete? with
  | none => exact .refl
  | some c => exact (each c).update (fun _ => rfl) fun _ record => record

/-- The members stand in one order in both, since their places are declared. -/
theorem truncates_parts (r : RecordDecl) : List.Forall₂ Truncates (m.parts inner r) (m.parts inner' r) := by
  rw [parts_eq_map, parts_eq_map, List.forall₂_map_left_iff, List.forall₂_map_right_iff, List.forall₂_same]
  intro p _
  cases p with
  | vptr => exact .refl
  | base b => exact truncates_baseTree each b
  | field f => exact truncates_fieldTree each f

end Step

/-- A cut record is what every tree of it can be truncated to. -/
theorem truncates_cut (m : Model) (room : Nat) (outer : List RecordId) (r : RecordDecl) :
    Truncates (m.tree room outer r) r.cut := by
  cases room with
  | zero => exact .refl
  | succ room =>
    rw [tree]
    split
    · exact .refl
    · exact .single (.here (.inl rfl))

theorem truncates_tree (m : Model) {room room' : Nat} {outer outer' : List RecordId} (less : room' ≤ room)
    (more : outer ⊆ outer') (r : RecordDecl) : Truncates (m.tree room outer r) (m.tree room' outer' r) := by
  induction room' generalizing room outer outer' r with
  | zero => exact m.truncates_cut room outer r
  | succ room' ih =>
    by_cases marked : r.id ∈ outer'
    · rw [tree, if_pos marked]
      exact m.truncates_cut room outer r
    · obtain ⟨room, rfl⟩ : ∃ n, room = n + 1 := Nat.exists_eq_succ_of_ne_zero (by omega)
      have fresh : r.id ∉ outer := fun mem => marked (more mem)
      rw [tree, tree, if_neg marked, if_neg fresh]
      apply truncates_ofChildren
      apply truncates_parts
      exact fun c => ih (Nat.le_of_succ_le_succ less) (List.cons_subset_cons r.id more) c

end Model

/-- With more records marked there is no more room. -/
theorem InProgress.room_le {s s' : InProgress} (more : s.ids ⊆ s'.ids) : s'.room ≤ s.room := by
  have size : s.size ≤ s'.size := s.nodup.length_le_of_subset more
  exact Nat.sub_le_sub_left size maxRecordDepth

/-- An analysis with more marks gives the tree of one with fewer, less the insides of some records. The nodes of
these stay with all they say of their records, but are invalid like the nodes around them. A valid tree is the same
with fewer marks. -/
theorem more_marks_truncate (m : Model) (r : RecordDecl) {s s' : InProgress} (more : s.ids ⊆ s'.ids) :
    Truncates (m.analyze r s).value.1 (m.analyze r s').value.1 ∧
      ((m.analyze r s').value.1.entry.valid = true → (m.analyze r s').value.1 = (m.analyze r s).value.1) := by
  have less : Truncates (m.analyze r s).value.1 (m.analyze r s').value.1 := by
    rw [m.value_analyze, m.value_analyze]
    exact m.truncates_tree (InProgress.room_le more) more r
  exact ⟨less, less.eq_of_valid⟩

/-- Where the egg is marked it is cut, and the chicken inside it is not reached. A mark that the diamond does not
reach leaves it valid and so the same. -/
theorem more_marks_truncate_farm :
    InProgress.empty.ids ⊆ (InProgress.empty.enter egg.id (by decide)).ids ∧
      Truncates (farm.model.analyze chicken .empty).value.1
        (farm.model.analyze chicken (InProgress.empty.enter egg.id (by decide))).value.1 ∧
      (farm.model.analyze chicken .empty).value.1.nodeCount = 3 ∧
      (farm.model.analyze chicken (InProgress.empty.enter egg.id (by decide))).value.1.nodeCount = 2 ∧
      (Model.diamond.analyze Model.diamondTop (InProgress.empty.enter 5 (by decide))).value.1.nodeCount = 7 ∧
      (Model.diamond.analyze Model.diamondTop (InProgress.empty.enter 5 (by decide))).value.1 =
        (Model.diamond.analyze Model.diamondTop .empty).value.1 := by
  have more : ∀ id fresh, InProgress.empty.ids ⊆ (InProgress.empty.enter id fresh).ids :=
    fun _ _ => List.nil_subset _
  have valid : (Model.diamond.analyze Model.diamondTop
      (InProgress.empty.enter 5 (by decide))).value.1.entry.valid = true := by cbv
  exact ⟨more egg.id _, (more_marks_truncate farm.model chicken (more egg.id _)).1, by cbv, by cbv, by cbv,
    (more_marks_truncate Model.diamond Model.diamondTop (more 5 _)).2 valid⟩

end RecordLayout
