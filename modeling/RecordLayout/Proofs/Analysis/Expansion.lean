import Mathlib
import RecordLayout.Proofs.Analysis.Tree
import RecordLayout.Proofs.Layout.Order

/-!
# Plain expansion

What a layout is meant to be, by rules that know neither marks nor a depth: `Model.Expands m r t` says
that `t` is the tree of `r` with every base and field that is a complete record expanded in turn. A
record that contains itself has no such tree. `layout_expands` relates the two: as long as no chain of
contained records repeats an id or grows longer than `maxRecordDepth`, a layout is the expansion and
nothing else is; any other layout is invalid.
-/
namespace RecordLayout

/-- What a record's root says of it once it is the base `b`. An offset that no word holds in bits makes
the node invalid and stands at the last bit. -/
def LayoutEntry.atBase (e : LayoutEntry) (b : BaseSpec) : LayoutEntry :=
  { e with
    kind := .nonVirtualBase
    offsetBits := .ofNat (min (8 * b.offset.toNat) (UInt64.size - 1))
    valid := e.valid && decide (8 * b.offset.toNat < UInt64.size) }

namespace Model

mutual

/-- `t` is the expansion of `r`: its own vptr, its bases by offset, its fields in order. -/
inductive Expands (m : Model) : RecordDecl → LayoutTree → Prop
  | intro {r : RecordDecl} {vptrs bases sorted fields : List LayoutTree}
      (vptr : vptrs =
        if r.hasOwnVptr then
          [.node
            { kind := .vptr
              typeName := "vptr"
              size := m.target.pointerWidthBits / 8
              align := m.target.pointerAlignBits / 8 } []]
        else [])
      (based : BasesExpand m r.bases bases)
      (arranged : SortedByOffset bases sorted)
      (filled : FieldsExpand m r.fields fields) :
      Expands m r
        (.node
          { kind := .record
            typeName := r.name
            size := r.size
            align := r.align
            valid := !r.invalid && (vptrs ++ sorted ++ fields).all (·.entry.valid) }
          (vptrs ++ sorted ++ fields))

/-- The nodes of a list of bases. A base without a complete record keeps its place, with the name of the
incomplete record or the id that names nothing. -/
inductive BasesExpand (m : Model) : List BaseSpec → List LayoutTree → Prop
  | nil : BasesExpand m [] []
  | skipped {b : BaseSpec} {bs : List BaseSpec} {ts : List LayoutTree} (virtual : b.isVirtual = true)
      (rest : BasesExpand m bs ts) : BasesExpand m (b :: bs) ts
  | expanded {b : BaseSpec} {bs : List BaseSpec} {c : RecordDecl} {e : LayoutEntry} {cs ts : List LayoutTree}
      (direct : b.isVirtual = false) (named : m.record? b.record = some c) (complete : c.complete = true)
      (inner : Expands m c (.node e cs)) (rest : BasesExpand m bs ts) :
      BasesExpand m (b :: bs) (.node (e.atBase b) cs :: ts)
  | incomplete {b : BaseSpec} {bs : List BaseSpec} {c : RecordDecl} {ts : List LayoutTree}
      (direct : b.isVirtual = false) (named : m.record? b.record = some c) (complete : c.complete = false)
      (rest : BasesExpand m bs ts) :
      BasesExpand m (b :: bs)
        (.node (LayoutEntry.atBase { kind := .record, typeName := c.name, valid := false } b) [] :: ts)
  | unresolved {b : BaseSpec} {bs : List BaseSpec} {ts : List LayoutTree}
      (direct : b.isVirtual = false) (named : m.record? b.record = none) (rest : BasesExpand m bs ts) :
      BasesExpand m (b :: bs)
        (.node (LayoutEntry.atBase
          { kind := .record, typeName := "<unresolved #" ++ toString b.record ++ ">", valid := false } b) [] :: ts)

/-- The nodes of a list of fields. A bit-field of a complete record is expanded like any other field. -/
inductive FieldsExpand (m : Model) : List FieldDecl → List LayoutTree → Prop
  | nil : FieldsExpand m [] []
  | expanded {f : FieldDecl} {fs : List FieldDecl} {id : RecordId} {c : RecordDecl} {e : LayoutEntry}
      {cs ts : List LayoutTree} (type : f.type.record = some id) (named : m.record? id = some c)
      (complete : c.complete = true) (inner : Expands m c (.node e cs)) (rest : FieldsExpand m fs ts) :
      FieldsExpand m (f :: fs)
        (.node { e with name := f.name, offsetBits := f.offsetBits, valid := e.valid && !f.invalid } cs :: ts)
  | leaf {f : FieldDecl} {fs : List FieldDecl} {ts : List LayoutTree}
      (plain : ∀ id c, f.type.record = some id → m.record? id = some c → c.complete = false)
      (rest : FieldsExpand m fs ts) :
      FieldsExpand m (f :: fs)
        (.node
          { kind := if f.bitWidth = none then .simple else .bitField
            typeName := f.type.name
            name := f.name
            offsetBits := f.offsetBits
            size := f.type.size
            align := f.type.align
            bitWidth := f.bitWidth.getD 0
            valid := !f.invalid } [] :: ts)

end

/-- `r` has the complete record `c` as a part of it. -/
inductive Contains (m : Model) (r c : RecordDecl) : Prop
  | base (b : BaseSpec) (mem : b ∈ r.bases) (direct : b.isVirtual = false)
      (named : m.record? b.record = some c) (complete : c.complete = true)
  | field (f : FieldDecl) (id : RecordId) (mem : f ∈ r.fields) (type : f.type.record = some id)
      (named : m.record? id = some c) (complete : c.complete = true)

/-! ## One record at a time -/

section Step

variable {m : Model} {inner : RecordDecl → LayoutTree}

theorem asBase_node (e : LayoutEntry) (cs : List LayoutTree) (b : BaseSpec) :
    (LayoutTree.node e cs).asBase b.offsetBits? = .node (e.atBase b) cs := by
  unfold BaseSpec.offsetBits? LayoutEntry.atBase
  rw [Nat.mul_comm]
  by_cases fits : 8 * b.offset.toNat < UInt64.size
  · have exact : UInt64.ofNat (min (8 * b.offset.toNat) (UInt64.size - 1)) = b.offset * 8 := by
      apply UInt64.toNat_inj.1
      simp only [UInt64.size] at fits ⊢
      simp only [UInt64.toNat_ofNat', UInt64.toNat_mul, UInt64.reduceToNat]
      omega
    rw [if_pos fits, exact, decide_eq_true fits, Bool.and_true]
    rfl
  · have last : min (8 * b.offset.toNat) (UInt64.size - 1) = UInt64.size - 1 := by omega
    rw [if_neg fits, last, decide_eq_false fits, Bool.and_false]
    rfl

theorem baseTree_complete {b : BaseSpec} {c : RecordDecl} (named : m.record? b.record = some c)
    (complete : c.complete = true) : m.baseTree inner b = (inner c).asBase b.offsetBits? := by
  simp [baseTree, namedTree, named, complete]

theorem baseTree_incomplete {b : BaseSpec} {c : RecordDecl} (named : m.record? b.record = some c)
    (complete : c.complete = false) :
    m.baseTree inner b =
      .node (LayoutEntry.atBase { kind := .record, typeName := c.name, valid := false } b) [] := by
  rw [← asBase_node]
  simp [baseTree, namedTree, named, complete, LayoutTree.leaf]

theorem baseTree_unresolved {b : BaseSpec} (named : m.record? b.record = none) :
    m.baseTree inner b =
      .node (LayoutEntry.atBase
        { kind := .record, typeName := "<unresolved #" ++ toString b.record ++ ">", valid := false } b) [] := by
  rw [← asBase_node]
  simp [baseTree, namedTree, named, LayoutTree.leaf]
  rfl

/-- Where `inner` has the only expansions of the records that bases name, their nodes are these. -/
theorem basesExpand_iff {bs : List BaseSpec} {ts : List LayoutTree}
    (only : ∀ b ∈ bs, b.isVirtual = false → ∀ c, m.record? b.record = some c → c.complete = true →
      ∀ u, m.Expands c u ↔ u = inner c) :
    m.BasesExpand bs ts ↔ ts = (bs.filter fun b => !b.isVirtual).map (m.baseTree inner) := by
  induction bs generalizing ts with
  | nil =>
    constructor
    · rintro ⟨⟩
      rfl
    · rintro rfl
      exact .nil
  | cons b bs ih =>
    have ih := fun ts => @ih ts fun b' mem => only b' (List.mem_cons_of_mem b mem)
    have only := only b List.mem_cons_self
    constructor
    · intro h
      cases h with
      | skipped virtual rest => simpa [virtual] using (ih _).1 rest
      | expanded direct named complete expansion rest =>
        have here := (only direct _ named complete _).1 expansion
        simp [direct, (ih _).1 rest, baseTree_complete named complete, ← here, asBase_node]
      | incomplete direct named complete rest =>
        simp [direct, (ih _).1 rest, baseTree_incomplete named complete]
      | unresolved direct named rest =>
        simp [direct, (ih _).1 rest, baseTree_unresolved named]
    · rintro rfl
      cases virtual : b.isVirtual with
      | true =>
        simp only [virtual, Bool.not_true, Bool.false_eq_true, not_false_eq_true, List.filter_cons_of_neg]
        exact .skipped virtual ((ih _).2 rfl)
      | false =>
        simp only [virtual, Bool.not_false, List.filter_cons_of_pos, List.map_cons]
        cases named : m.record? b.record with
        | none =>
          rw [baseTree_unresolved named]
          exact .unresolved virtual named ((ih _).2 rfl)
        | some c =>
          cases complete : c.complete with
          | false =>
            rw [baseTree_incomplete named complete]
            exact .incomplete virtual named complete ((ih _).2 rfl)
          | true =>
            have expansion := (only virtual c named complete _).2 rfl
            rw [baseTree_complete named complete]
            cases tree : inner c with
            | node e cs =>
              rw [asBase_node]
              exact .expanded virtual named complete (tree ▸ expansion) ((ih _).2 rfl)

theorem fieldTree_complete {f : FieldDecl} {id : RecordId} {c : RecordDecl} (type : f.type.record = some id)
    (named : m.record? id = some c) (complete : c.complete = true) :
    m.fieldTree inner f = f.place (inner c) := by
  simp [fieldTree, type, complete?_eq_some.2 ⟨named, complete⟩]

theorem fieldTree_plain {f : FieldDecl}
    (plain : ∀ id c, f.type.record = some id → m.record? id = some c → c.complete = false) :
    m.fieldTree inner f = f.leafNode := by
  unfold fieldTree
  cases found : f.type.record.bind m.complete? with
  | none => rfl
  | some c =>
    obtain ⟨id, type, named⟩ := Option.bind_eq_some_iff.1 found
    obtain ⟨named, complete⟩ := complete?_eq_some.1 named
    simp [plain id c type named] at complete

theorem leafNode_eq (f : FieldDecl) :
    f.leafNode =
      .node
        { kind := if f.bitWidth = none then .simple else .bitField
          typeName := f.type.name
          name := f.name
          offsetBits := f.offsetBits
          size := f.type.size
          align := f.type.align
          bitWidth := f.bitWidth.getD 0
          valid := !f.invalid } [] := by
  cases width : f.bitWidth <;> simp [FieldDecl.leafNode, FieldDecl.isBitField, LayoutTree.leaf, width]

/-- The same of the nodes of fields. -/
theorem fieldsExpand_iff {fs : List FieldDecl} {ts : List LayoutTree}
    (only : ∀ f ∈ fs, ∀ id c, f.type.record = some id → m.record? id = some c → c.complete = true →
      ∀ u, m.Expands c u ↔ u = inner c) :
    m.FieldsExpand fs ts ↔ ts = fs.map (m.fieldTree inner) := by
  induction fs generalizing ts with
  | nil =>
    constructor
    · rintro ⟨⟩
      rfl
    · rintro rfl
      exact .nil
  | cons f fs ih =>
    have ih := fun ts => @ih ts fun f' mem => only f' (List.mem_cons_of_mem f mem)
    have only := only f List.mem_cons_self
    constructor
    · intro h
      cases h with
      | expanded type named complete expansion rest =>
        have here := (only _ _ type named complete _).1 expansion
        simp [(ih _).1 rest, fieldTree_complete type named complete, ← here, FieldDecl.place, LayoutTree.update]
      | leaf plain rest =>
        simp [(ih _).1 rest, fieldTree_plain plain, leafNode_eq]
    · rintro rfl
      rw [List.map_cons]
      by_cases plain : ∀ id c, f.type.record = some id → m.record? id = some c → c.complete = false
      · rw [fieldTree_plain plain, leafNode_eq]
        exact .leaf plain ((ih _).2 rfl)
      · simp only [not_forall, Bool.not_eq_false] at plain
        obtain ⟨id, c, type, named, complete⟩ := plain
        have expansion := (only id c type named complete _).2 rfl
        rw [fieldTree_complete type named complete]
        cases tree : inner c with
        | node e cs => exact .expanded type named complete (tree ▸ expansion) ((ih _).2 rfl)

theorem vptrs_eq (r : RecordDecl) :
    m.vptrs r =
      if r.hasOwnVptr then
        [.node
          { kind := .vptr
            typeName := "vptr"
            size := m.target.pointerWidthBits / 8
            align := m.target.pointerAlignBits / 8 } []]
      else [] := by
  rw [vptrs, Target.vptrNode, Target.pointerSize_eq, Target.pointerAlign_eq, LayoutTree.leaf]

/-- Where `inner` has the only expansions of the records that `r` contains, this is the only one of `r`. -/
theorem expands_iff {r : RecordDecl} {t : LayoutTree}
    (only : ∀ c, m.Contains r c → ∀ u, m.Expands c u ↔ u = inner c) :
    m.Expands r t ↔ t = .ofChildren r.entry (m.parts inner r) := by
  have bases : ∀ ts, m.BasesExpand r.bases ts ↔ ts = r.directBases.map (m.baseTree inner) := fun ts =>
    basesExpand_iff fun b mem direct c named complete => only c (.base b mem direct named complete)
  have fields : ∀ ts, m.FieldsExpand r.fields ts ↔ ts = r.fields.map (m.fieldTree inner) := fun ts =>
    fieldsExpand_iff fun f mem id c type named complete => only c (.field f id mem type named complete)
  constructor
  · rintro ⟨vptr, based, arranged, filled⟩
    have sorted := arranged.unique (sortedByOffset_sortByOffset _)
    rw [vptr, ← vptrs_eq, sorted, (bases _).1 based, (fields _).1 filled]
    rfl
  · rintro rfl
    exact .intro (vptrs_eq r) ((bases _).2 rfl) (sortedByOffset_sortByOffset _) ((fields _).2 rfl)

theorem valid_of_asBase {t : LayoutTree} {offset : Option UInt64} (h : (t.asBase offset).entry.valid = true) :
    t.entry.valid = true := by
  cases offset with
  | none => simp [LayoutTree.asBase] at h
  | some o => simpa [LayoutTree.asBase] using h

theorem valid_of_place {f : FieldDecl} {t : LayoutTree} (h : (f.place t).entry.valid = true) :
    t.entry.valid = true := by
  rw [FieldDecl.place, LayoutTree.entry_update, Bool.and_eq_true] at h
  exact h.1

/-- A valid record has valid parts, those of complete records among them. -/
theorem valid_of_contains {r c : RecordDecl}
    (valid : (LayoutTree.ofChildren r.entry (m.parts inner r)).entry.valid = true) (part : m.Contains r c) :
    (inner c).entry.valid = true := by
  have all : ∀ t ∈ m.parts inner r, t.entry.valid = true := by
    simp only [LayoutTree.ofChildren, LayoutTree.entry_node, Bool.and_eq_true, List.all_eq_true] at valid
    exact valid.2
  simp only [parts, List.mem_append, mem_sortByOffset, List.mem_map] at all
  cases part with
  | base b mem direct named complete =>
    have chosen : b ∈ r.directBases := by simp [RecordDecl.directBases, mem, direct]
    have node := all _ (.inl (.inr ⟨b, chosen, rfl⟩))
    rw [baseTree_complete named complete] at node
    exact valid_of_asBase node
  | field f id mem type named complete =>
    have node := all _ (.inr ⟨f, mem, rfl⟩)
    rw [fieldTree_complete type named complete] at node
    exact valid_of_place node

end Step

/-! ## Chains of contained records -/

/-- No chain of contained records from `r` is longer than `room`, repeats an id or meets one of `outer`. -/
def Expandable (m : Model) (room : Nat) (outer : List RecordId) (r : RecordDecl) : Prop :=
  ∀ chain, (r :: chain).IsChain m.Contains →
    (r :: chain).length ≤ room ∧ ((r :: chain).map (·.id)).Nodup ∧ ∀ c ∈ r :: chain, c.id ∉ outer

section Chain

variable {m : Model} {room : Nat} {outer : List RecordId} {r : RecordDecl}

theorem not_expandable_zero : ¬ m.Expandable 0 outer r := by
  intro h
  have short := (h [] (.singleton r)).1
  simp at short

/-- To expand a record is to enter it and to expand what it contains. -/
theorem expandable_succ :
    m.Expandable (room + 1) outer r ↔
      r.id ∉ outer ∧ ∀ c, m.Contains r c → m.Expandable room (r.id :: outer) c := by
  constructor
  · intro h
    refine ⟨(h [] (.singleton r)).2.2 r List.mem_cons_self, ?_⟩
    intro c part chain linked
    obtain ⟨short, distinct, apart⟩ := h (c :: chain) (List.isChain_cons_cons.2 ⟨part, linked⟩)
    rw [List.map_cons, List.nodup_cons] at distinct
    refine ⟨by simpa using short, distinct.2, ?_⟩
    intro d mem inside
    rcases List.mem_cons.1 inside with same | inside
    · exact distinct.1 (same ▸ List.mem_map_of_mem mem)
    · exact apart d (List.mem_cons_of_mem r mem) inside
  · rintro ⟨fresh, inner⟩ chain linked
    cases chain with
    | nil => simpa using fresh
    | cons c chain =>
      obtain ⟨part, linked⟩ := List.isChain_cons_cons.1 linked
      obtain ⟨short, distinct, apart⟩ := inner c part chain linked
      refine ⟨by simpa using short, ?_, ?_⟩
      · rw [List.map_cons, List.nodup_cons]
        refine ⟨?_, distinct⟩
        intro repeated
        obtain ⟨d, mem, same⟩ := List.mem_map.1 repeated
        exact apart d mem (same ▸ List.mem_cons_self)
      · intro d mem
        rcases List.mem_cons.1 mem with rfl | mem
        · exact fresh
        · exact fun inside => apart d mem (List.mem_cons_of_mem r.id inside)

/-- More room and fewer records around never hinder. -/
theorem Expandable.mono {room' : Nat} {outer' : List RecordId} (h : m.Expandable room outer r)
    (larger : room ≤ room') (fewer : ∀ id ∈ outer', id ∈ outer) : m.Expandable room' outer' r := by
  intro chain linked
  obtain ⟨short, distinct, apart⟩ := h chain linked
  exact ⟨Nat.le_trans short larger, distinct, fun c mem inside => apart c mem (fewer _ inside)⟩

/-- Where neither marks nor depth stop it, an analysis gives the one expansion. -/
theorem Expandable.expands_iff (h : m.Expandable room outer r) (t : LayoutTree) :
    m.Expands r t ↔ t = m.tree room outer r := by
  induction room generalizing outer r t with
  | zero => exact absurd h not_expandable_zero
  | succ room ih =>
    obtain ⟨fresh, inner⟩ := expandable_succ.1 h
    rw [tree, if_neg fresh]
    exact Model.expands_iff fun c part u => ih (inner c part) u

/-- A cut makes every record around it invalid, so a valid tree was never cut. -/
theorem expandable_of_valid (valid : (m.tree room outer r).entry.valid = true) : m.Expandable room outer r := by
  induction room generalizing outer r with
  | zero => simp [tree, RecordDecl.cut, LayoutTree.leaf] at valid
  | succ room ih =>
    rw [tree] at valid
    by_cases marked : r.id ∈ outer
    · simp [marked, RecordDecl.cut, LayoutTree.leaf] at valid
    · rw [if_neg marked] at valid
      exact expandable_succ.2 ⟨marked, fun c part => ih (valid_of_contains valid part)⟩

/-- A valid tree stays the same with more room and fewer records around. -/
theorem tree_eq_of_valid {room' : Nat} {outer' : List RecordId}
    (valid : (m.tree room outer r).entry.valid = true) (larger : room ≤ room')
    (fewer : ∀ id ∈ outer', id ∈ outer) : m.tree room' outer' r = m.tree room outer r := by
  have free := expandable_of_valid valid
  exact ((free.expands_iff _).1 (((free.mono larger fewer).expands_iff _).2 rfl))

end Chain

/-- The layout of a record is its one plain expansion as long as no chain of contained records repeats an
id or has more than 256 records. Otherwise it is invalid. So a valid layout is always the expansion. -/
theorem layout_expands (m : Model) (r : RecordDecl) :
    ((∀ chain, (r :: chain).IsChain m.Contains →
        ((r :: chain).map (·.id)).Nodup ∧ (r :: chain).length ≤ 256) →
      ∀ t, m.Expands r t ↔ t = (m.layout r).value) ∧
    ((∃ chain, (r :: chain).IsChain m.Contains ∧
        (¬ ((r :: chain).map (·.id)).Nodup ∨ 256 < (r :: chain).length)) →
      (m.layout r).value.entry.valid = false) ∧
    ((m.layout r).value.entry.valid = true → m.Expands r (m.layout r).value) := by
  rw [value_layout]
  refine ⟨?_, ?_, ?_⟩
  · intro chains t
    have free : m.Expandable maxRecordDepth [] r := fun chain linked =>
      ⟨(chains chain linked).2, (chains chain linked).1, fun _ _ => List.not_mem_nil⟩
    exact free.expands_iff t
  · rintro ⟨chain, linked, bad⟩
    by_contra valid
    obtain ⟨short, distinct, -⟩ := expandable_of_valid (by simpa using valid) chain linked
    rcases bad with repeated | long
    · exact repeated distinct
    · exact absurd short (Nat.not_le_of_lt long)
  · intro valid
    exact ((expandable_of_valid valid).expands_iff _).2 rfl

/-- A record with two bases that share one, and a record that has itself as a field. -/
def diamondTop : RecordDecl :=
  { id := 4, name := "D", bases := [{ record := 3, offset := 4 }, { record := 2 }] }

def selfMember : RecordDecl :=
  { id := 5, name := "E", fields := [{ type := ⟨"E", 0, 0, some 5⟩, offsetBits := 0 }] }

def diamond : Model where
  target := .standard
  record? id := List.find? (·.id = id)
    [{ id := 1, name := "A", fields := [{ name := "x", type := ⟨"int", 4, 4, none⟩, offsetBits := 0 }] },
      { id := 2, name := "B", bases := [{ record := 1 }] }, { id := 3, name := "C", bases := [{ record := 1 }] },
      diamondTop, selfMember]

theorem layout_expands_diamond :
    (∀ t, diamond.Expands diamondTop t ↔ t = (diamond.layout diamondTop).value) ∧
      (diamond.layout selfMember).value.entry.valid = false := by
  constructor
  · have valid : (diamond.tree maxRecordDepth [] diamondTop).entry.valid = true := by cbv
    apply (layout_expands diamond diamondTop).1
    intro chain linked
    obtain ⟨short, distinct, -⟩ := expandable_of_valid valid chain linked
    exact ⟨distinct, short⟩
  · apply (layout_expands diamond selfMember).2.1
    refine ⟨[selfMember], List.isChain_cons_cons.2 ⟨?_, .singleton _⟩, .inl (by decide)⟩
    exact .field ⟨"", ⟨"E", 0, 0, some 5⟩, 0, none, false⟩ 5 (by decide) rfl (by decide) (by decide)

end Model
end RecordLayout
