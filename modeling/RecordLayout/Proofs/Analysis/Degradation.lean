import Mathlib
import RecordLayout.Proofs.Analysis.Soundness
import RecordLayout.Proofs.Analysis.Warnings

/-!
# Why a node is invalid

A node of a layout is invalid for a reason that stands at it or below it, and each such reason makes it
invalid: the layout falls short there (`Model.Degrades`), or a record that is laid out with its members, or one
of its fields, is declared invalid. So an invalid layout without declared invalidity has warned, and one that
has warned is invalid (`invalid_for_cause`).
-/
namespace RecordLayout

/-- The record or one of its fields is declared invalid. -/
def RecordDecl.Flawed (r : RecordDecl) : Prop := r.invalid = true ∨ ∃ f ∈ r.fields, f.invalid = true

namespace Model

/-- Laying out `r` inside `outer` lays out `c` with its members, at an address. -/
inductive Unfolds (m : Model) : List RecordId → RecordDecl → Address → RecordDecl → Prop
  | here {outer : List RecordId} {r : RecordDecl} (enters : r.Enters outer) : Unfolds m outer r [] r
  | inside {outer : List RecordId} {r c d : RecordDecl} {k : Nat} {p : Member} {a : Address}
      (enters : r.Enters outer) (listed : r.members[k]? = some p) (named : m.recordOf? p = some c)
      (inner : Unfolds m (r.id :: outer) c a d) : Unfolds m outer r (k :: a) d

/-- The node at an address stands for the member `p` of a record that is laid out with its members. -/
inductive StandsFor (m : Model) : List RecordId → RecordDecl → Address → Member → Prop
  | here {outer : List RecordId} {r : RecordDecl} {k : Nat} {p : Member} (enters : r.Enters outer)
      (listed : r.members[k]? = some p) : StandsFor m outer r [k] p
  | inside {outer : List RecordId} {r c : RecordDecl} {k : Nat} {p q : Member} {a : Address}
      (enters : r.Enters outer) (listed : r.members[k]? = some p) (named : m.recordOf? p = some c)
      (inner : StandsFor m (r.id :: outer) c a q) : StandsFor m outer r (k :: a) q

/-- There is a reason at this very address. -/
def Spoils (m : Model) (outer : List RecordId) (r : RecordDecl) (a : Address) : Prop :=
  (∃ e, m.Degrades outer r a e) ∨ ∃ c, m.Unfolds outer r a c ∧ c.Flawed

section Reasons

variable {m : Model} {outer : List RecordId} {r : RecordDecl} {k : Nat} {a : Address}

theorem unfolds_nil {c : RecordDecl} : m.Unfolds outer r [] c ↔ r.Enters outer ∧ c = r := by
  constructor
  · rintro ⟨enters⟩
    exact ⟨enters, rfl⟩
  · rintro ⟨enters, rfl⟩
    exact .here enters

theorem unfolds_cons {d : RecordDecl} :
    m.Unfolds outer r (k :: a) d ↔ r.Enters outer ∧ ∃ p c, r.members[k]? = some p ∧ m.recordOf? p = some c ∧
      m.Unfolds (r.id :: outer) c a d := by
  constructor
  · intro h
    cases h with
    | inside enters listed named inner => exact ⟨enters, _, _, listed, named, inner⟩
  · rintro ⟨enters, p, c, listed, named, inner⟩
    exact .inside enters listed named inner

theorem spoils_nil (enters : r.Enters outer) : m.Spoils outer r [] ↔ r.Flawed := by
  simp [Spoils, degrades_of_enters enters, unfolds_nil, enters]

/-- A reason inside a record is one in the record that a member is laid out as, or a base is at fault itself. -/
theorem spoils_cons (enters : r.Enters outer) :
    m.Spoils outer r (k :: a) ↔ ∃ p, r.members[k]? = some p ∧
      ((∃ c, m.recordOf? p = some c ∧ m.Spoils (r.id :: outer) c a) ∨
        ∃ b e, p = .base b ∧ a = [] ∧ m.BaseFault r b e) := by
  simp only [Spoils, degrades_of_enters enters, unfolds_cons, enters, true_and, List.cons.injEq]
  constructor
  · rintro (⟨e, _, p, _, ⟨rfl, rfl⟩, listed, here⟩ | ⟨d, ⟨p, c, listed, named, inner⟩, flawed⟩)
    · rcases here with ⟨c, named, inner⟩ | ⟨b, rfl, rfl, fault⟩
      · exact ⟨p, listed, .inl ⟨c, named, .inl ⟨e, inner⟩⟩⟩
      · exact ⟨_, listed, .inr ⟨b, e, rfl, rfl, fault⟩⟩
    · exact ⟨p, listed, .inl ⟨c, named, .inr ⟨d, inner, flawed⟩⟩⟩
  · rintro ⟨p, listed, ⟨c, named, ⟨e, inner⟩ | ⟨d, inner, flawed⟩⟩ | ⟨b, e, rfl, rfl, fault⟩⟩
    · exact .inl ⟨e, k, p, a, ⟨rfl, rfl⟩, listed, .inl ⟨c, named, inner⟩⟩
    · exact .inr ⟨d, ⟨p, c, listed, named, inner⟩, flawed⟩
    · exact .inl ⟨e, k, _, [], ⟨rfl, rfl⟩, listed, .inr ⟨b, rfl, rfl, fault⟩⟩

end Reasons

/-! ## One record at a time -/

section Step

variable {m : Model} {inner : RecordDecl → LayoutTree}

theorem baseFault_of_complete {owner c : RecordDecl} {b : BaseSpec} (named : m.record? b.record = some c)
    (complete : c.complete = true) : (∃ e, m.BaseFault owner b e) ↔ 2 ^ 61 ≤ b.offset.toNat := by
  constructor
  · rintro ⟨e, ⟨other, forward⟩ | none | far⟩
    · rw [named, Option.some.injEq] at other
      rw [← other, complete] at forward
      cases forward
    · rw [named] at none
      cases none
    · exact far
  · exact fun far => ⟨_, .outOfRange far⟩

theorem valid_baseTree (owner : RecordDecl) (b : BaseSpec) :
    (m.baseTree inner b).entry.valid = false ↔
      (∃ c, m.complete? b.record = some c ∧ (inner c).entry.valid = false) ∨ ∃ e, m.BaseFault owner b e := by
  cases named : m.record? b.record with
  | none =>
    rw [baseTree_unresolved named]
    exact iff_of_true rfl (.inr ⟨_, .unresolved named⟩)
  | some c =>
    cases complete : c.complete with
    | false =>
      rw [baseTree_incomplete named complete]
      exact iff_of_true rfl (.inr ⟨_, .incomplete named complete⟩)
    | true =>
      have found : m.complete? b.record = some c := complete?_eq_some.2 ⟨named, complete⟩
      rw [baseTree_complete named complete, baseFault_of_complete named complete]
      cases tree : inner c with
      | node e cs =>
        have far : ¬ 8 * b.offset.toNat < UInt64.size ↔ 2 ^ 61 ≤ b.offset.toNat := by
          simp only [UInt64.size]
          omega
        simp only [asBase_node, LayoutTree.entry_node, LayoutEntry.atBase, Bool.and_eq_false_iff,
          decide_eq_false_iff_not, far, found, Option.some.injEq, exists_eq_left', tree]

theorem valid_fieldTree (f : FieldDecl) :
    (m.fieldTree inner f).entry.valid = false ↔
      (∃ c, f.type.record.bind m.complete? = some c ∧ (inner c).entry.valid = false) ∨ f.invalid = true := by
  unfold fieldTree
  cases f.type.record.bind m.complete? with
  | none => simp [FieldDecl.leafNode, LayoutTree.leaf]
  | some c =>
    simp only [FieldDecl.place, LayoutTree.entry_update, Bool.and_eq_false_iff, Bool.not_eq_false', Option.some.injEq,
      exists_eq_left']

/-- A member is invalid because of the record that it is laid out as or of what is said of the member. -/
theorem valid_memberTree (owner : RecordDecl) (p : Member) :
    (m.memberTree inner p).entry.valid = false ↔
      (∃ c, m.recordOf? p = some c ∧ (inner c).entry.valid = false) ∨
        (∃ b e, p = .base b ∧ m.BaseFault owner b e) ∨ ∃ f, p = .field f ∧ f.invalid = true := by
  cases p with
  | vptr => simp [memberTree, recordOf?, Target.vptrNode, LayoutTree.leaf]
  | base b => simpa [memberTree, recordOf?] using valid_baseTree owner b
  | field f => simpa [memberTree, recordOf?] using valid_fieldTree f

/-- A leaf that is a field's is invalid if and only if the field is declared so. -/
theorem leaf_memberTree (kinds : ∀ c, (inner c).entry.kind = .record) {p : Member}
    (leaf : (m.memberTree inner p).entry.kind = .simple ∨ (m.memberTree inner p).entry.kind = .bitField) :
    ∃ f, p = .field f ∧ ((m.memberTree inner p).entry.valid = false ↔ f.invalid = true) := by
  cases p with
  | vptr => rcases leaf with kind | kind <;> cases kind
  | base b =>
    rw [memberTree, kind_baseTree] at leaf
    rcases leaf with kind | kind <;> cases kind
  | field f =>
    refine ⟨f, rfl, ?_⟩
    rw [memberTree] at leaf ⊢
    obtain ⟨c, placed⟩ | plain := m.fieldTree_cases inner f
    · rw [placed, FieldDecl.place, LayoutTree.entry_update, kinds] at leaf
      rcases leaf with kind | kind <;> cases kind
    · simp [plain, FieldDecl.leafNode, LayoutTree.leaf]

/-- A member has the children of the record that it is laid out as, or none. -/
theorem children_memberTree (p : Member) :
    (m.memberTree inner p).children = ((m.recordOf? p).map fun c => (inner c).children).getD [] := by
  cases p with
  | vptr => rfl
  | base b =>
    have kept : (m.baseTree inner b).children = (m.namedTree inner b.record).children := by
      rw [baseTree]
      cases b.offsetBits? <;> exact LayoutTree.children_update _ _
    rw [memberTree, kept, namedTree, recordOf?, complete?]
    cases m.record? b.record with
    | none => rfl
    | some c => cases complete : c.complete <;> simp [Option.filter_some, complete, LayoutTree.leaf]
  | field f =>
    rw [memberTree, fieldTree, recordOf?]
    cases f.type.record.bind m.complete? with
    | none => rfl
    | some c => exact LayoutTree.children_update _ _

end Step

/-! ## The whole tree -/

section Tree

variable {m : Model} {room : Nat} {outer : List RecordId} {r : RecordDecl}

/-- A node below the root stands for a member of a record that was entered, or stands below such a node. -/
theorem at?_tree_cons {k : Nat} {a : Address} {n : LayoutTree} (found : (m.tree room outer r).at? (k :: a) = some n) :
    ∃ room', room = room' + 1 ∧ r.id ∉ outer ∧ ∃ p, r.members[k]? = some p ∧
      (m.memberTree (m.tree room' (r.id :: outer)) p).at? a = some n := by
  cases room with
  | zero => cases found
  | succ room =>
    rw [tree] at found
    split at found
    · cases found
    · next fresh =>
      rw [parts_eq_map, LayoutTree.ofChildren, LayoutTree.at?_cons, LayoutTree.children_node, List.getElem?_map,
        Option.bind_eq_some_iff] at found
      obtain ⟨child, built, found⟩ := found
      obtain ⟨p, listed, rfl⟩ := Option.map_eq_some_iff.1 built
      exact ⟨room, rfl, fresh, p, listed, found⟩

/-- Below a member stands what stands below the root of the record that it is laid out as. -/
theorem at?_memberTree_cons {inner : RecordDecl → LayoutTree} {p : Member} {k : Nat} {a : Address} :
    (m.memberTree inner p).at? (k :: a) = (m.recordOf? p).bind fun c => (inner c).at? (k :: a) := by
  rw [LayoutTree.at?_cons, children_memberTree]
  cases m.recordOf? p <;> rfl

/-- The reasons at a member and below it, and those of its node. -/
theorem valid_member {inner : RecordDecl → LayoutTree} (enters : r.Enters outer) {k : Nat} {p : Member}
    (listed : r.members[k]? = some p)
    (roots : ∀ c, (inner c).entry.valid = false ↔ ∃ a, m.Spoils (r.id :: outer) c a) :
    (m.memberTree inner p).entry.valid = false ↔
      (∃ a, m.Spoils outer r (k :: a)) ∨ ∃ f, p = .field f ∧ f.invalid = true := by
  rw [valid_memberTree r]
  simp only [roots, spoils_cons enters, listed, Option.some.injEq, exists_eq_left', ← or_assoc]
  apply or_congr_left
  constructor
  · rintro (⟨c, named, a, reason⟩ | ⟨b, e, base, fault⟩)
    · exact ⟨a, .inl ⟨c, named, reason⟩⟩
    · exact ⟨[], .inr ⟨b, e, base, rfl, fault⟩⟩
  · rintro ⟨a, ⟨c, named, reason⟩ | ⟨b, e, base, -, fault⟩⟩
    · exact .inl ⟨c, named, a, reason⟩
    · exact .inr ⟨b, e, base, fault⟩

theorem valid_ofChildren {inner : RecordDecl → LayoutTree} :
    (LayoutTree.ofChildren r.entry (m.parts inner r)).entry.valid = false ↔
      r.invalid = true ∨
        ∃ (k : Nat) (p : Member), r.members[k]? = some p ∧ (m.memberTree inner p).entry.valid = false := by
  rw [parts_eq_map, LayoutTree.ofChildren, LayoutTree.entry_node, Bool.and_eq_false_iff, List.all_eq_false]
  simp only [RecordDecl.entry, Bool.not_eq_false', List.mem_map, Bool.not_eq_true]
  apply or_congr_right
  constructor
  · rintro ⟨_, ⟨p, mem, rfl⟩, invalid⟩
    obtain ⟨k, listed⟩ := List.mem_iff_getElem?.1 mem
    exact ⟨k, p, listed, invalid⟩
  · rintro ⟨k, p, listed, invalid⟩
    exact ⟨_, ⟨p, List.mem_of_getElem? listed, rfl⟩, invalid⟩

/-- The root of a tree is invalid for a reason anywhere in it. -/
theorem valid_tree (fits : room = maxRecordDepth - outer.length) :
    (m.tree room outer r).entry.valid = false ↔ ∃ a, m.Spoils outer r a := by
  induction room generalizing outer r with
  | zero =>
    have full : maxRecordDepth ≤ outer.length := by omega
    exact iff_of_true rfl ⟨[], .inl ⟨_, .tooDeep full⟩⟩
  | succ room ih =>
    rw [tree]
    split
    · next marked => exact iff_of_true rfl ⟨[], .inl ⟨_, .selfContaining (by omega) marked⟩⟩
    · next fresh =>
      have enters : r.Enters outer := ⟨by omega, fresh⟩
      have roots := fun c => @ih (r.id :: outer) c (by rw [List.length_cons]; omega)
      rw [valid_ofChildren]
      constructor
      · rintro (declared | ⟨k, p, listed, invalid⟩)
        · exact ⟨[], (spoils_nil enters).2 (.inl declared)⟩
        · rcases (valid_member enters listed roots).1 invalid with ⟨a, reason⟩ | ⟨f, rfl, declared⟩
          · exact ⟨k :: a, reason⟩
          · have mem : f ∈ r.fields := RecordDecl.field_mem_members.1 (List.mem_of_getElem? listed)
            exact ⟨[], (spoils_nil enters).2 (.inr ⟨f, mem, declared⟩)⟩
      · rintro ⟨_ | ⟨k, a⟩, reason⟩
        · rcases (spoils_nil enters).1 reason with declared | ⟨f, mem, declared⟩
          · exact .inl declared
          · obtain ⟨k, listed⟩ := List.mem_iff_getElem?.1 (RecordDecl.field_mem_members.2 mem)
            exact .inr ⟨k, _, listed, (valid_member enters listed roots).2 (.inr ⟨f, rfl, declared⟩)⟩
        · obtain ⟨p, listed, -⟩ := (spoils_cons enters).1 reason
          exact .inr ⟨k, p, listed, (valid_member enters listed roots).2 (.inl ⟨a, reason⟩)⟩

/-- The reasons for the node of a member stand at the member or below it, or its field is declared invalid. -/
theorem valid_node (fits : room = maxRecordDepth - outer.length) {k : Nat} {a : Address} {n : LayoutTree}
    (found : (m.tree room outer r).at? (k :: a) = some n) :
    ∃ p, m.StandsFor outer r (k :: a) p ∧
      (n.entry.valid = false ↔
        (∃ rest, m.Spoils outer r (k :: a ++ rest)) ∨ ∃ f, p = .field f ∧ f.invalid = true) ∧
      (n.entry.kind = .simple ∨ n.entry.kind = .bitField →
        ∃ f, p = .field f ∧ (n.entry.valid = false ↔ f.invalid = true)) := by
  induction a generalizing room outer r k with
  | nil =>
    obtain ⟨room, rfl, fresh, p, listed, found⟩ := at?_tree_cons found
    obtain rfl := Option.some.inj found
    have enters : r.Enters outer := ⟨by omega, fresh⟩
    have deeper : room = maxRecordDepth - (r.id :: outer).length := by
      rw [List.length_cons]
      omega
    exact ⟨p, .here enters listed, valid_member enters listed fun c => valid_tree deeper,
      leaf_memberTree fun c => m.kind_tree room (r.id :: outer) c⟩
  | cons l a ih =>
    obtain ⟨room, rfl, fresh, p, listed, found⟩ := at?_tree_cons found
    have enters : r.Enters outer := ⟨by omega, fresh⟩
    have deeper : room = maxRecordDepth - (r.id :: outer).length := by
      rw [List.length_cons]
      omega
    rw [at?_memberTree_cons] at found
    obtain ⟨c, named, found⟩ := Option.bind_eq_some_iff.1 found
    obtain ⟨q, stands, reasons, leaf⟩ := ih deeper found
    refine ⟨q, .inside enters listed named stands, ?_, leaf⟩
    simp only [reasons, List.cons_append, spoils_cons enters, listed, named, Option.some.injEq, exists_eq_left',
      List.cons_ne_nil, false_and, and_false, exists_false, or_false]

end Tree
end Model

/-- A run warns of each place where the layout falls short once, and of nothing else. The layout is invalid if
and only if the run has warned, or a record that was laid out with its members or one of its fields is declared
invalid. The same holds of each node below the root and what stands at it or below it, where a field that is
declared invalid counts too. A field that is not laid out as a record is invalid if and only if it is declared
so. -/
theorem invalid_for_cause (m : Model) (r : RecordDecl) (s : InProgress) :
    let run := m.analyze r s
    (∃ sites : List (Address × Event), sites.Nodup ∧ (∀ a e, (a, e) ∈ sites ↔ m.Degrades s.ids r a e) ∧
      run.warnings.Perm (sites.map (·.2))) ∧
    (run.value.1.entry.valid = false ↔ run.warnings ≠ [] ∨ ∃ a c, m.Unfolds s.ids r a c ∧ c.Flawed) ∧
    (∀ k a n, run.value.1.at? (k :: a) = some n → ∃ p, m.StandsFor s.ids r (k :: a) p ∧
      (n.entry.valid = false ↔
        (∃ rest, m.Spoils s.ids r (k :: a ++ rest)) ∨ ∃ f, p = .field f ∧ f.invalid = true) ∧
      (n.entry.kind = .simple ∨ n.entry.kind = .bitField →
        ∃ f, p = .field f ∧ (n.entry.valid = false ↔ f.invalid = true))) := by
  have fits : s.room = maxRecordDepth - s.ids.length := rfl
  have warned := (Model.warns_expand m s.room r s).warnings
  have logged : (m.analyze r s).warnings = (m.expand s.room r s).warnings := rfl
  rw [← logged] at warned
  simp only
  rw [Model.value_analyze]
  refine ⟨⟨_, Model.nodup_sites m r fits, fun a e => Model.mem_sites_iff fits, warned⟩, ?_, ?_⟩
  · have reported : (m.analyze r s).warnings ≠ [] ↔ ∃ a e, m.Degrades s.ids r a e := by
      rw [ne_eq, List.eq_nil_iff_forall_not_mem, not_forall]
      simp only [not_not, warned.mem_iff, List.mem_map, Prod.exists, Model.mem_sites_iff fits]
      constructor
      · rintro ⟨_, a, e, place, -⟩
        exact ⟨a, e, place⟩
      · rintro ⟨a, e, place⟩
        exact ⟨e, a, e, place, rfl⟩
    rw [Model.valid_tree fits, reported]
    simp only [Model.Spoils, exists_or]
  · exact fun k a n found => Model.valid_node fits found

-- A base that names nothing and is out of range is reported twice.
example :
    ((Model.mk .standard fun _ => none).layout
      { id := 6, name := "F", bases := [{ record := 9, offset := 2 ^ 61 }] }).warnings =
        [.unresolvedBase 9, .offsetOutOfRange 9 "F" (2 ^ 61)] := by
  cbv

end RecordLayout
