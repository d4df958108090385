import Mathlib
import RecordLayout.Proofs.Analysis.Locality
import RecordLayout.Proofs.Analysis.Soundness

/-!
# Where bases are placed

The children of a record's node that are bases stand for its direct bases: first those whose offset in bits fits a
word, by ascending offset, then the others, which are invalid and at the last bit of a word. The order in which the
bases are listed decides only between equal offsets and among bases out of range, so a layout stays the same when
bases at distinct offsets in range change places (`bases_placed`).
-/
namespace RecordLayout

/-- A word holds the offset in bits. -/
def BaseSpec.near (b : BaseSpec) : Bool := b.offset.toNat < 2 ^ 61

theorem BaseSpec.near_iff {b : BaseSpec} : b.near = true ↔ b.offset.toNat < 2 ^ 61 := decide_eq_true_iff

theorem BaseSpec.not_near_iff {b : BaseSpec} : b.near = false ↔ 2 ^ 61 ≤ b.offset.toNat := by
  simp [near]

/-- The node of the base, where `named` is the tree of the record that it names. -/
structure BaseSpec.PlacedAs (b : BaseSpec) (named t : LayoutTree) : Prop where
  same : t = named.update fun e =>
    { e with kind := .nonVirtualBase, offsetBits := t.entry.offsetBits, valid := t.entry.valid }
  near : b.near = true → t.entry.offsetBits.toNat = 8 * b.offset.toNat ∧ t.entry.offsetBytes = b.offset ∧
    t.entry.valid = named.entry.valid
  far : b.near = false → t.entry.offsetBits.toNat = 2 ^ 64 - 1 ∧ t.entry.valid = false

namespace RecordDecl

/-- The direct bases by place: `near` has those in range by ascending offset, `far` has the others. Bases at one
offset and those in `far` keep their order. -/
structure Arranged (r : RecordDecl) (near far : List BaseSpec) : Prop where
  perm : (near ++ far).Perm r.directBases
  inRange : ∀ b ∈ near, b.near = true
  ascending : near.Pairwise fun a b => a.offset ≤ b.offset
  stable : ∀ o, near.filter (·.offset = o) = r.directBases.filter fun b => b.near && b.offset = o
  far_eq : far = r.directBases.filter fun b => !b.near

/-- The two differ in the order of their bases at most, and only if the direct ones are at distinct offsets in
range. -/
inductive Reordered (r : RecordDecl) : RecordDecl → Prop
  | same : Reordered r r
  | bases {bases : List BaseSpec} (perm : r.bases.Perm bases) (distinct : (r.directBases.map (·.offset)).Nodup)
      (inRange : ∀ b ∈ r.directBases, b.near = true) : Reordered r { r with bases }

end RecordDecl

/-! ## The order of the bases -/

section Order

variable {a b : BaseSpec}

theorem place_of_near (near : b.near = true) : b.place = 8 * b.offset.toNat := by
  rw [BaseSpec.near_iff] at near
  rw [BaseSpec.place, UInt64.size]
  omega

theorem place_of_far (far : b.near = false) : b.place = UInt64.size - 1 := by
  rw [BaseSpec.not_near_iff] at far
  rw [BaseSpec.place, UInt64.size]
  omega

theorem place_le_iff (near : a.near = true) (near' : b.near = true) : a.place ≤ b.place ↔ a.offset ≤ b.offset := by
  rw [place_of_near near, place_of_near near', UInt64.le_iff_toNat_le]
  omega

theorem near_of_place_le (le : a.place ≤ b.place) (near : b.near = true) : a.near = true := by
  cases far : a.near with
  | true => rfl
  | false =>
    rw [place_of_near near, place_of_far far, UInt64.size] at le
    rw [BaseSpec.near_iff] at near
    omega

theorem placeOrder_trans (a b c : BaseSpec) (hab : decide (a.place ≤ b.place) = true)
    (hbc : decide (b.place ≤ c.place) = true) : decide (a.place ≤ c.place) = true := by
  simp only [decide_eq_true_eq] at hab hbc ⊢
  omega

theorem placeOrder_total (a b : BaseSpec) : (decide (a.place ≤ b.place) || decide (b.place ≤ a.place)) = true := by
  simp only [Bool.or_eq_true, decide_eq_true_eq]
  omega

theorem arrangedBases_ascending (r : RecordDecl) : r.arrangedBases.Pairwise fun a b => a.place ≤ b.place := by
  have sorted := List.pairwise_mergeSort placeOrder_trans placeOrder_total r.directBases
  exact sorted.imp fun h => by simpa using h

/-- Bases in range stand before all others. -/
theorem filter_near_append_filter_far {bs : List BaseSpec} (ascending : bs.Pairwise fun a b => a.place ≤ b.place) :
    bs.filter (·.near) ++ bs.filter (fun b => !b.near) = bs := by
  induction bs with
  | nil => rfl
  | cons b bs ih =>
    obtain ⟨least, ascending⟩ := List.pairwise_cons.1 ascending
    cases first : b.near with
    | true => simpa [first] using ih ascending
    | false =>
      have far : ∀ c ∈ bs, c.near = false := by
        intro c mem
        cases near : c.near with
        | false => rfl
        | true => exact absurd (near_of_place_le (least c mem) near) (by simp [first])
      have none : bs.filter (·.near) = [] := List.filter_eq_nil_iff.2 fun c mem => by simp [far c mem]
      have all : bs.filter (fun b => !b.near) = bs := List.filter_eq_self.2 fun c mem => by simp [far c mem]
      simp [first, none, all]

/-- Bases at one place keep their order. -/
theorem filter_arrangedBases (r : RecordDecl) {q : BaseSpec → Bool}
    (level : ∀ a b, q a = true → q b = true → a.place = b.place) :
    r.arrangedBases.filter q = r.directBases.filter q := by
  apply filter_mergeSort placeOrder_trans placeOrder_total
  intro a b ha hb
  exact decide_eq_true (Nat.le_of_eq (level a b ha hb))

theorem arranged_arrangedBases (r : RecordDecl) :
    ∃ near far, r.arrangedBases = near ++ far ∧ r.Arranged near far := by
  have split := filter_near_append_filter_far (arrangedBases_ascending r)
  refine ⟨_, _, split.symm, ?_, fun b mem => (List.mem_filter.1 mem).2, ?_, ?_, ?_⟩
  · rw [split]
    exact r.arrangedBases_perm
  · apply ((arrangedBases_ascending r).filter _).imp_of_mem
    intro a b ha hb le
    exact (place_le_iff (List.mem_filter.1 ha).2 (List.mem_filter.1 hb).2).1 le
  · intro o
    rw [List.filter_filter, ← filter_arrangedBases r]
    · exact List.filter_congr fun b _ => Bool.and_comm _ _
    · intro a b ha hb
      simp only [Bool.and_eq_true, decide_eq_true_eq] at ha hb
      rw [place_of_near ha.1, place_of_near hb.1, ha.2, hb.2]
  · apply filter_arrangedBases
    intro a b ha hb
    rw [Bool.not_eq_true'] at ha hb
    rw [place_of_far ha, place_of_far hb]

end Order

/-- The places of the bases tell them apart, so there is one order by place. -/
theorem RecordDecl.Reordered.arrangedBases_eq {r r' : RecordDecl} (reordered : r.Reordered r') :
    r.arrangedBases = r'.arrangedBases := by
  cases reordered with
  | same => rfl
  | @bases bases perm distinct inRange =>
    have direct : r.directBases.Perm { r with bases }.directBases := perm.filter _
    refine List.Perm.eq_of_pairwise ?_ (arrangedBases_ascending r) (arrangedBases_ascending _)
      (r.arrangedBases_perm.trans (direct.trans (RecordDecl.arrangedBases_perm _).symm))
    intro a b ha hb le ge
    have mem_a : a ∈ r.directBases := r.arrangedBases_perm.mem_iff.1 ha
    have mem_b : b ∈ r.directBases := direct.mem_iff.2 ((RecordDecl.arrangedBases_perm _).mem_iff.1 hb)
    apply List.inj_on_of_nodup_map distinct mem_a mem_b
    rw [place_le_iff (inRange a mem_a) (inRange b mem_b)] at le
    rw [place_le_iff (inRange b mem_b) (inRange a mem_a)] at ge
    exact UInt64.le_antisymm le ge

theorem RecordDecl.Reordered.alike {r r' : RecordDecl} (reordered : r.Reordered r') : r.Alike r' := by
  have members : r.members = r'.members := by
    rw [RecordDecl.members, RecordDecl.members, reordered.arrangedBases_eq]
    cases reordered <;> rfl
  cases reordered <;> exact ⟨rfl, rfl, rfl, members⟩

/-! ## The nodes of the bases -/

theorem offsetBytes_of_toNat {e : LayoutEntry} {o : UInt64} (bits : e.offsetBits.toNat = 8 * o.toNat) :
    e.offsetBytes = o := by
  apply UInt64.toNat_inj.1
  rw [LayoutEntry.offsetBytes_eq, UInt64.toNat_div, bits]
  exact Nat.mul_div_cancel_left _ (by decide)

namespace Model

theorem placedAs_asBase (b : BaseSpec) (named : LayoutTree) : b.PlacedAs named (named.asBase b.offsetBits?) := by
  cases named with
  | node e cs =>
    have bits : (e.atBase b).offsetBits.toNat = b.place := offsetBits_atBase e b
    have valid : (e.atBase b).valid = (e.valid && decide (8 * b.offset.toNat < UInt64.size)) := rfl
    rw [asBase_node]
    constructor
    · rfl
    · intro near
      rw [place_of_near near] at bits
      rw [BaseSpec.near_iff] at near
      rw [UInt64.size, decide_eq_true (by omega), Bool.and_true] at valid
      exact ⟨bits, offsetBytes_of_toNat bits, valid⟩
    · intro far
      rw [place_of_far far] at bits
      rw [BaseSpec.not_near_iff] at far
      rw [UInt64.size, decide_eq_false (by omega), Bool.and_false] at valid
      exact ⟨bits, valid⟩

section Children

variable {m : Model} {inner : RecordDecl → LayoutTree}

/-- Of the parts of a record only its bases are of their kind, as the records inside it are not. -/
theorem filter_parts (kinds : ∀ c, (inner c).entry.kind = .record) (r : RecordDecl) :
    (m.parts inner r).filter (·.entry.kind = .nonVirtualBase) = r.arrangedBases.map (m.baseTree inner) := by
  have vptrs : (m.vptrs r).filter (·.entry.kind = .nonVirtualBase) = [] := by
    rw [List.filter_eq_nil_iff]
    intro t mem
    simp [eq_vptrNode_of_mem mem, Target.vptrNode, LayoutTree.leaf]
  have fields : (r.fields.map (m.fieldTree inner)).filter (·.entry.kind = .nonVirtualBase) = [] := by
    rw [List.filter_eq_nil_iff]
    intro t mem base
    obtain ⟨f, -, rfl⟩ := List.mem_map.1 mem
    have rank := rank_fieldTree (m := m) kinds f
    rw [of_decide_eq_true base] at rank
    cases rank
  have bases : (r.arrangedBases.map (m.baseTree inner)).filter (·.entry.kind = .nonVirtualBase) =
      r.arrangedBases.map (m.baseTree inner) := by
    rw [List.filter_eq_self]
    intro t mem
    obtain ⟨b, -, rfl⟩ := List.mem_map.1 mem
    exact decide_eq_true (kind_baseTree m inner b)
  rw [parts, sortByOffset_baseTrees, List.filter_append, List.filter_append, vptrs, bases, fields, List.nil_append,
    List.append_nil]

end Children

/-- What analyses give for the record that a base names, inside a record that has been entered. -/
theorem value_baseRecord (m : Model) (id : RecordId) (s : InProgress) :
    (m.baseRecord m.analyze id s).value.1 = m.namedTree (m.tree s.room s.ids) id :=
  congrArg Prod.fst (coincide_baseRecord (fun c => Analysis.Yields.coincide (m.value_analyze c s)) id).yields

/-- The bases among the children of a record that is laid out with its members. -/
theorem bases_analyze (m : Model) {r : RecordDecl} {s : InProgress} (fresh : r.id ∉ s.ids)
    (below : s.size < maxRecordDepth) :
    (m.analyze r s).value.1.children.filter (·.entry.kind = .nonVirtualBase) =
      r.arrangedBases.map (m.baseTree (m.tree (s.enter r.id fresh).room (r.id :: s.ids))) := by
  rw [value_analyze, room_enter fresh below, tree, if_neg fresh]
  exact filter_parts (kind_tree m _ _) r

end Model

/-- Where a record is laid out with its members, the children that are bases stand for its direct bases one by one:
first those in range by ascending offset, at this very offset, then the others, which are invalid and at the last
bit of a word; equal offsets and bases out of range keep their order. The layout of a record is the same in two
models with one target that declare records in different orders of bases, if the direct bases of each that differs
are at distinct offsets in range. The record itself may differ so too. -/
theorem bases_placed :
    (∀ (m : Model) (r : RecordDecl) (s : InProgress) (fresh : r.id ∉ s.ids), s.size < maxRecordDepth →
      ∃ near far, r.Arranged near far ∧
        List.Forall₂ (fun b t => b.PlacedAs (m.baseRecord m.analyze b.record (s.enter r.id fresh)).value.1 t)
          (near ++ far) ((m.analyze r s).value.1.children.filter (·.entry.kind = .nonVirtualBase))) ∧
    ∀ (m m' : Model) (r r' : RecordDecl) (s : InProgress), m.target = m'.target →
      (∀ id, Option.Rel RecordDecl.Reordered (m.record? id) (m'.record? id)) → r.Reordered r' →
      (m.analyze r s).value = (m'.analyze r' s).value := by
  constructor
  · intro m r s fresh below
    obtain ⟨near, far, arranged, order⟩ := arranged_arrangedBases r
    refine ⟨near, far, order, ?_⟩
    rw [Model.bases_analyze m fresh below, ← arranged, List.forall₂_map_right_iff, List.forall₂_same]
    intro b _
    rw [Model.value_baseRecord]
    exact Model.placedAs_asBase b _
  · intro m m' r r' s target agree reordered
    have alike : ∀ id, m.Reaches r id → Option.Rel RecordDecl.Alike (m.record? id) (m'.record? id) := by
      intro id _
      have agree := agree id
      generalize m.record? id = found, m'.record? id = found' at agree ⊢
      cases agree with
      | none => exact .none
      | some reordered => exact .some reordered.alike
    rw [Model.value_analyze, Model.value_analyze,
      Model.tree_eq_of_alike (congrArg Target.vptrNode target) alike reordered.alike]

def hull : RecordDecl :=
  { id := 2, name := "Hull", size := 16, bases := [{ record := 4, offset := 8 }, { record := 3 }] }

/-- `hull` with its bases listed the other way round. -/
def keel : RecordDecl := { hull with bases := [{ record := 3 }, { record := 4, offset := 8 }] }

/-- A base out of range, one in range and a virtual one. -/
def ferry : RecordDecl :=
  { id := 1, name := "Ferry", size := 24
    bases := [{ record := 3, offset := 2 ^ 61 }, { record := 2, offset := 8 }, { record := 4, isVirtual := true }] }

/-- Only the record 2 is declared. -/
def harbor (second : RecordDecl) : Model := ⟨.standard, fun id => if id = 2 then some second else none⟩

theorem bases_placed_harbor :
    (∃ near far, ferry.Arranged near far ∧
      ((harbor hull).analyze ferry .empty).value.1.children.length = (near ++ far).length) ∧
    ((harbor hull).analyze ferry .empty).value.1.children.map (·.entry.offsetBits.toNat) = [64, 2 ^ 64 - 1] ∧
    ((harbor hull).analyze ferry .empty).value = ((harbor keel).analyze ferry .empty).value := by
  have fresh : ferry.id ∉ InProgress.empty.ids := List.not_mem_nil
  have below : InProgress.empty.size < maxRecordDepth := by decide
  have turned : hull.Reordered keel := .bases (.swap _ _ _) (by decide) (by decide)
  have agree : ∀ id, Option.Rel RecordDecl.Reordered ((harbor hull).record? id) ((harbor keel).record? id) := by
    intro id
    simp only [harbor]
    split
    · exact .some turned
    · exact .none
  have all : ((harbor hull).analyze ferry .empty).value.1.children.filter (·.entry.kind = .nonVirtualBase) =
      ((harbor hull).analyze ferry .empty).value.1.children := by
    cbv
  obtain ⟨near, far, arranged, placed⟩ := bases_placed.1 (harbor hull) ferry .empty fresh below
  have count := placed.length_eq
  rw [all] at count
  exact ⟨⟨near, far, arranged, count.symm⟩, by cbv, bases_placed.2 _ _ ferry ferry .empty rfl agree .same⟩

end RecordLayout
