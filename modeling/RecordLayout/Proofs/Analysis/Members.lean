import Mathlib
import RecordLayout.Proofs.Analysis.Expansion

/-!
# What the nodes of a layout stand for

The children of a record's node stand for its members: its own vptr, its non-virtual bases by offset, its
fields in order (`parts_eq_map`). A node is addressed by the child positions on the way to it, so an
address tells which member of which record the node stands for.
-/
namespace RecordLayout

/-- What a child of a record's node stands for. -/
inductive Member where
  | vptr
  | base (b : BaseSpec)
  | field (f : FieldDecl)

/-- The offset of a base in bits, or the last bit of a word that does not hold it. -/
def BaseSpec.place (b : BaseSpec) : Nat := min (8 * b.offset.toNat) (UInt64.size - 1)

theorem offsetBits_atBase (e : LayoutEntry) (b : BaseSpec) : (e.atBase b).offsetBits.toNat = b.place := by
  have last : b.place < UInt64.size := Nat.lt_of_le_of_lt (Nat.min_le_right _ _) (by decide)
  exact Nat.mod_eq_of_lt last

namespace RecordDecl

/-- The direct bases by ascending offset. -/
def arrangedBases (r : RecordDecl) : List BaseSpec := r.directBases.mergeSort fun a b => a.place ≤ b.place

/-- The members with a node, in the order of the layout. -/
def members (r : RecordDecl) : List Member :=
  (if r.hasOwnVptr then [.vptr] else []) ++ r.arrangedBases.map .base ++ r.fields.map .field

theorem arrangedBases_perm (r : RecordDecl) : r.arrangedBases.Perm r.directBases := List.mergeSort_perm _ _

theorem base_mem_members {r : RecordDecl} {b : BaseSpec} : .base b ∈ r.members ↔ b ∈ r.directBases := by
  cases vptr : r.hasOwnVptr <;> simp [members, vptr, r.arrangedBases_perm.mem_iff]

theorem field_mem_members {r : RecordDecl} {f : FieldDecl} : .field f ∈ r.members ↔ f ∈ r.fields := by
  cases vptr : r.hasOwnVptr <;> simp [members, vptr]

end RecordDecl

namespace Model

/-- The tree of a member, where `inner` has those of complete records. -/
def memberTree (m : Model) (inner : RecordDecl → LayoutTree) : Member → LayoutTree
  | .vptr => m.target.vptrNode
  | .base b => m.baseTree inner b
  | .field f => m.fieldTree inner f

/-- The complete record that a member is laid out as. -/
def recordOf? (m : Model) : Member → Option RecordDecl
  | .vptr => none
  | .base b => m.complete? b.record
  | .field f => f.type.record.bind m.complete?

section Parts

variable (m : Model) (inner : RecordDecl → LayoutTree)

theorem offsetBits_baseTree (b : BaseSpec) : (m.baseTree inner b).entry.offsetBits.toNat = b.place := by
  rw [baseTree]
  cases m.namedTree inner b.record with
  | node e cs => rw [asBase_node, LayoutTree.entry_node, offsetBits_atBase]

/-- Sorting the nodes of bases amounts to sorting the bases. -/
theorem sortByOffset_baseTrees (r : RecordDecl) :
    sortByOffset (r.directBases.map (m.baseTree inner)) = r.arrangedBases.map (m.baseTree inner) := by
  have order : ∀ a ∈ r.directBases, ∀ b ∈ r.directBases, decide (a.place ≤ b.place) =
      decide ((m.baseTree inner a).entry.offsetBits ≤ (m.baseTree inner b).entry.offsetBits) := by
    intro a _ b _
    simp only [UInt64.le_iff_toNat_le, offsetBits_baseTree]
  exact (List.map_mergeSort order).symm

theorem parts_eq_map (r : RecordDecl) : m.parts inner r = r.members.map (m.memberTree inner) := by
  have vptrs : m.vptrs r = (if r.hasOwnVptr then [Member.vptr] else []).map (m.memberTree inner) := by
    unfold vptrs
    split <;> rfl
  rw [parts, sortByOffset_baseTrees, vptrs, RecordDecl.members, List.map_append, List.map_append, List.map_map,
    List.map_map]
  rfl

end Parts
end Model

/-! ## Addresses -/

/-- The child positions on the way from the root of a tree to a node. -/
abbrev Address := List Nat

namespace LayoutTree

/-- The node at an address. -/
def at? (t : LayoutTree) : Address → Option LayoutTree
  | [] => some t
  | k :: rest => t.children[k]?.bind (·.at? rest)

theorem at?_cons (t : LayoutTree) (k : Nat) (rest : Address) :
    t.at? (k :: rest) = t.children[k]?.bind (·.at? rest) := rfl

@[simp] theorem children_update (f : LayoutEntry → LayoutEntry) (t : LayoutTree) :
    (t.update f).children = t.children := by
  cases t
  rfl

end LayoutTree
end RecordLayout
