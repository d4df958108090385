import Mathlib
import RecordLayout.Proofs.Analysis.Expansion
import RecordLayout.Proofs.Session.Resolution

/-!
# Copies of layouts

A layout holds copies of the layouts of its bases and of those fields that are records. Each was laid out
inside other records and through the index, but if it is valid, it is what the store has for the record
it names, at another place (`valid_copies_stored`).
-/
namespace RecordLayout

namespace Program

/-- A complete declaration that the index finds is stored as it was laid out, wherever that was, if the
result is valid. -/
theorem get?_survey_of_valid {p : Program} {id : RecordId} {c : RecordDecl} {room : Nat}
    {outer : List RecordId} (itanium : p.target.isItanium = true) (found : p.model.record? id = some c)
    (complete : c.complete = true) (shallow : room ≤ maxRecordDepth)
    (valid : (p.model.tree room outer c).entry.valid = true) :
    p.survey.value.2.get? id = some (p.model.tree room outer c) := by
  have first : p.firstComplete? id = some c := firstComplete?_of_record? found complete
  have alone : p.model.tree maxRecordDepth [] c = p.model.tree room outer c :=
    Model.tree_eq_of_valid valid shallow fun _ none => absurd none List.not_mem_nil
  rw [get?_survey p itanium, first, Option.map_some, Model.value_layout, alone]

end Program

/-- `n` is the stored layout of `id`, valid and at another place: only what `moved` sets differs. -/
def RecordStore.HasCopy (store : RecordStore) (id : RecordId) (moved : LayoutEntry → LayoutEntry)
    (n : LayoutTree) : Prop :=
  ∃ t, store.get? id = some t ∧ t.entry.valid = true ∧ n = t.update moved

section Copies

variable {m : Model} {inner : RecordDecl → LayoutTree}

/-- A valid base is in range and a copy of the valid tree of a complete record. -/
theorem Model.baseTree_of_valid {b : BaseSpec} (valid : (m.baseTree inner b).entry.valid = true) :
    b.offset.toNat * 8 < UInt64.size ∧ ∃ c, m.record? b.record = some c ∧ c.complete = true ∧
      (inner c).entry.valid = true ∧
      m.baseTree inner b =
        (inner c).update fun e => { e with kind := .nonVirtualBase, offsetBits := b.offset * 8 } := by
  cases found : m.record? b.record with
  | none =>
    rw [baseTree_unresolved found] at valid
    simp [LayoutEntry.atBase] at valid
  | some c =>
    cases complete : c.complete with
    | false =>
      rw [baseTree_incomplete found complete] at valid
      simp [LayoutEntry.atBase] at valid
    | true =>
      rw [baseTree_complete found complete] at valid ⊢
      by_cases fits : b.offset.toNat * 8 < UInt64.size
      · refine ⟨fits, c, rfl, complete, valid_of_asBase valid, ?_⟩
        rw [BaseSpec.offsetBits?, if_pos fits, LayoutTree.asBase]
      · rw [BaseSpec.offsetBits?, if_neg fits, LayoutTree.asBase, LayoutTree.entry_update] at valid
        exact absurd valid Bool.false_ne_true

/-- A valid field that is laid out as a record is a copy of the valid tree of a complete record. -/
theorem Model.fieldTree_of_valid {f : FieldDecl} (expanded : (m.fieldTree inner f).entry.kind = .record)
    (valid : (m.fieldTree inner f).entry.valid = true) :
    ∃ id c, f.type.record = some id ∧ m.record? id = some c ∧ c.complete = true ∧
      (inner c).entry.valid = true ∧
      m.fieldTree inner f = (inner c).update fun e => { e with name := f.name, offsetBits := f.offsetBits } := by
  by_cases plain : ∀ id c, f.type.record = some id → m.record? id = some c → c.complete = false
  · rw [fieldTree_plain plain, leafNode_eq] at expanded
    cases width : f.bitWidth <;> simp [width] at expanded
  · simp only [not_forall, Bool.not_eq_false] at plain
    obtain ⟨id, c, type, found, complete⟩ := plain
    rw [fieldTree_complete type found complete] at valid ⊢
    refine ⟨id, c, type, found, complete, valid_of_place valid, ?_⟩
    have clean : f.invalid = false := by
      rw [FieldDecl.place, LayoutTree.entry_update, Bool.and_eq_true, Bool.not_eq_true'] at valid
      exact valid.2
    simp [FieldDecl.place, clean]

end Copies

/-- In the layout of `r`, every valid base and every valid field that is a record is a copy of the stored
layout of the record it names. -/
def Model.CopiesStored (m : Model) (store : RecordStore) (r : RecordDecl) : Prop :=
  ∃ bases fields,
    (m.layout r).value.children = m.vptrs r ++ sortByOffset bases ++ fields ∧
    List.Forall₂ (fun (b : BaseSpec) n => n.entry.kind = .nonVirtualBase ∧
      (n.entry.valid = true → 8 * b.offset.toNat < UInt64.size ∧
        store.HasCopy b.record
          (fun e => { e with kind := .nonVirtualBase, offsetBits := 8 * b.offset }) n)) r.directBases bases ∧
    List.Forall₂ (fun (f : FieldDecl) n => n.entry.name = f.name ∧
      (n.entry.kind = .record → n.entry.valid = true → ∃ id, f.type.record = some id ∧
        store.HasCopy id
          (fun e => { e with name := f.name, offsetBits := f.offsetBits }) n)) r.fields fields

/-- After a pass, the valid copies in the layout of any record are stored layouts at other places. So the
stored layouts agree with each other. -/
theorem valid_copies_stored {s : Session} {source : String} {p : Program}
    (parsed : (s.frontend.parse source s.config.splitArgs).value = .ok p)
    (itanium : p.target.isItanium = true) (r : RecordDecl) :
    p.model.CopiesStored (s.analyze source).value.2.store r := by
  rw [Session.store_analyze parsed]
  -- What a layout holds was laid out one level down and with `r` marked, unlike what is stored.
  let inner := p.model.tree (maxRecordDepth - 1) [r.id]
  have copied : ∀ id c, p.model.record? id = some c → c.complete = true → (inner c).entry.valid = true →
      p.survey.value.2.get? id = some (inner c) := fun _ _ found complete sound =>
    Program.get?_survey_of_valid itanium found complete (Nat.sub_le maxRecordDepth 1) sound
  refine ⟨r.directBases.map (p.model.baseTree inner), r.fields.map (p.model.fieldTree inner), ?_, ?_, ?_⟩
  · have built : p.model.tree maxRecordDepth [] r = .ofChildren r.entry (p.model.parts inner r) :=
      if_neg List.not_mem_nil
    rw [Model.value_layout, built]
    rfl
  · rw [List.forall₂_map_right_iff, List.forall₂_same]
    intro b _
    refine ⟨Model.kind_baseTree p.model inner b, ?_⟩
    intro valid
    obtain ⟨fits, c, found, complete, sound, copy⟩ := Model.baseTree_of_valid valid
    refine ⟨Nat.mul_comm _ 8 ▸ fits, inner c, copied _ c found complete sound, sound, ?_⟩
    rw [copy, UInt64.mul_comm]
  · rw [List.forall₂_map_right_iff, List.forall₂_same]
    intro f _
    refine ⟨Model.name_fieldTree p.model inner f, ?_⟩
    intro expanded valid
    obtain ⟨id, c, type, found, complete, sound, copy⟩ := Model.fieldTree_of_valid expanded valid
    exact ⟨id, type, inner c, copied id c found complete sound, sound, copy⟩

/-- A record with another one as a base and as a field. -/
def nestedTop : RecordDecl :=
  { id := 2, name := "D", bases := [{ record := 1 }]
    fields := [{ name := "b", type := ⟨"B", 4, 4, some 1⟩, offsetBits := 32 }] }

def nested : Program :=
  .ofDecls .standard
    [.record { id := 1, name := "B", fields := [{ name := "x", type := ⟨"int", 4, 4, none⟩, offsetBits := 0 }] } [],
      .record nestedTop []]

theorem valid_copies_stored_nested :
    nested.model.CopiesStored
        ((Session.mk (.fixed (.ok nested)) {} .empty "").analyze "").value.2.store nestedTop ∧
      (nested.model.layout nestedTop).value.children.length = 2 ∧
      (nested.model.layout nestedTop).value.entry.valid = true :=
  ⟨valid_copies_stored rfl (by decide) nestedTop, by cbv, by cbv⟩

end RecordLayout
