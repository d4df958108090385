import RecordLayout.Analysis

/-!
# The tree of an analysis

An analysis marks and unmarks records as it goes, but what it gives depends on the marks it starts
with alone. `Model.tree` is that dependence as a plain function of the records around a record, and
`yields_expand` says that a run gives this tree and leaves the marks as they were. Statements about
layouts are proved of `Model.tree`. What happens inside a record depends only on the runs from its
marks, which `Coincide` says of two ways to lay out what is inside.
-/
namespace RecordLayout

namespace Analysis

variable {α β : Type} {s : InProgress}

/-- A run from `s` gives `a` and ends with the marks of `s`. -/
def Yields (x : Analysis α) (s : InProgress) (a : α) : Prop := (x s).value = (a, s)

theorem yields_pure (a : α) : Yields (pure a) s a := rfl

theorem yields_report (e : Event) : Yields (report e) s () := rfl

theorem Yields.bind {x : Analysis α} {f : α → Analysis β} {a : α} {b : β} (hx : Yields x s a)
    (hf : Yields (f a) s b) : Yields (x >>= f) s b := by
  have step : ((x >>= f) s).value = (f (x s).value.1 (x s).value.2).value := rfl
  rw [Yields, step, hx]
  exact hf

/-- From `s` the two run alike, give `a` and keep the marks. -/
structure Coincide (x y : Analysis α) (s : InProgress) (a : α) : Prop where
  yields : Yields y s a
  same : x s = y s

theorem Yields.coincide {x : Analysis α} {a : α} (h : Yields x s a) : Coincide x x s a := ⟨h, rfl⟩

theorem Coincide.bind {x y : Analysis α} {f g : α → Analysis β} {a : α} {b : β} (first : Coincide x y s a)
    (next : Coincide (f a) (g a) s b) : Coincide (x >>= f) (y >>= g) s b := by
  refine ⟨first.yields.bind next.yields, ?_⟩
  have run : ∀ (z : Analysis α) (k : α → Analysis β), (z >>= k) s =
      ⟨(k (z s).value.1 (z s).value.2).value, (z s).events ++ (k (z s).value.1 (z s).value.2).events⟩ :=
    fun _ _ => rfl
  rw [run, run, first.same, first.yields, next.same]

theorem coincide_mapM {f g : α → Analysis β} {b : α → β} (l : List α)
    (h : ∀ a ∈ l, Coincide (f a) (g a) s (b a)) : Coincide (l.mapM f) (l.mapM g) s (l.map b) := by
  induction l with
  | nil => exact (yields_pure []).coincide
  | cons a l ih =>
    rw [List.mapM_cons, List.mapM_cons]
    apply (h a List.mem_cons_self).bind
    apply (ih fun c mem => h c (List.mem_cons_of_mem a mem)).bind
    exact (yields_pure _).coincide

end Analysis

open Analysis

/-- The bases that are part of the layout. -/
def RecordDecl.directBases (r : RecordDecl) : List BaseSpec := r.bases.filter fun b => !b.isVirtual

namespace Model

/-- The tree of the record that a base names, where `inner` has the trees of complete records. -/
def namedTree (m : Model) (inner : RecordDecl → LayoutTree) (id : RecordId) : LayoutTree :=
  match m.record? id with
  | some r => if r.complete then inner r else .leaf { kind := .record, typeName := r.name, valid := false }
  | none => .leaf { kind := .record, typeName := s!"<unresolved #{id}>", valid := false }

def baseTree (m : Model) (inner : RecordDecl → LayoutTree) (b : BaseSpec) : LayoutTree :=
  (m.namedTree inner b.record).asBase b.offsetBits?

def fieldTree (m : Model) (inner : RecordDecl → LayoutTree) (f : FieldDecl) : LayoutTree :=
  match f.type.record.bind m.complete? with
  | some r => f.place (inner r)
  | none => f.leafNode

theorem complete?_eq_some {m : Model} {id : RecordId} {c : RecordDecl} :
    m.complete? id = some c ↔ m.record? id = some c ∧ c.complete = true := by
  simp [complete?, Option.filter_eq_some_iff]

theorem kind_baseTree (m : Model) (inner : RecordDecl → LayoutTree) (b : BaseSpec) :
    (m.baseTree inner b).entry.kind = .nonVirtualBase := by
  unfold baseTree
  cases b.offsetBits? <;> simp [LayoutTree.asBase]

theorem fieldTree_cases (m : Model) (inner : RecordDecl → LayoutTree) (f : FieldDecl) :
    (∃ c, m.fieldTree inner f = f.place (inner c)) ∨ m.fieldTree inner f = f.leafNode := by
  unfold fieldTree
  cases f.type.record.bind m.complete? with
  | none => exact .inr rfl
  | some c => exact .inl ⟨c, rfl⟩

theorem name_fieldTree (m : Model) (inner : RecordDecl → LayoutTree) (f : FieldDecl) :
    (m.fieldTree inner f).entry.name = f.name := by
  obtain ⟨c, placed⟩ | plain := m.fieldTree_cases inner f
  · rw [placed, FieldDecl.place, LayoutTree.entry_update]
  · rw [plain]
    rfl

/-- The own vptr of a record, if it has one. -/
def vptrs (m : Model) (r : RecordDecl) : List LayoutTree := if r.hasOwnVptr then [m.target.vptrNode] else []

theorem eq_vptrNode_of_mem {m : Model} {r : RecordDecl} {t : LayoutTree} (mem : t ∈ m.vptrs r) :
    t = m.target.vptrNode := by
  unfold vptrs at mem
  split at mem
  · exact List.mem_singleton.1 mem
  · exact absurd mem List.not_mem_nil

/-- The parts of a record in the order of its layout. -/
def parts (m : Model) (inner : RecordDecl → LayoutTree) (r : RecordDecl) : List LayoutTree :=
  m.vptrs r ++ sortByOffset (r.directBases.map (m.baseTree inner)) ++ r.fields.map (m.fieldTree inner)

/-- The tree of a record inside the records `outer`, where `room` more can be entered. -/
def tree (m : Model) : Nat → List RecordId → RecordDecl → LayoutTree
  | 0, _, r => r.cut
  | room + 1, outer, r =>
    if r.id ∈ outer then r.cut else .ofChildren r.entry (m.parts (m.tree room (r.id :: outer)) r)

/-- Virtual bases give no node, so dropping what is missing leaves the nodes of the direct bases. -/
theorem filterMap_baseNodes (r : RecordDecl) (node : BaseSpec → LayoutTree) :
    (r.bases.map fun b => if b.isVirtual then none else some (node b)).filterMap id =
      r.directBases.map node := by
  unfold RecordDecl.directBases
  induction r.bases with
  | nil => rfl
  | cons b bs ih => cases h : b.isVirtual <;> simp_all

section Run

variable {m : Model} {s : InProgress} {f g : RecordDecl → Analysis LayoutTree} {inner : RecordDecl → LayoutTree}
  (h : ∀ c, Coincide (f c) (g c) s (inner c))
include h

theorem coincide_baseRecord (id : RecordId) :
    Coincide (m.baseRecord f id) (m.baseRecord g id) s (m.namedTree inner id) := by
  unfold baseRecord namedTree
  cases m.record? id with
  | none => exact (yields_report _).coincide.bind (yields_pure _).coincide
  | some c =>
    dsimp only
    split
    · exact h c
    · exact (yields_report _).coincide.bind (yields_pure _).coincide

theorem coincide_baseNode? (owner : String) (b : BaseSpec) :
    Coincide (m.baseNode? f owner b) (m.baseNode? g owner b) s
      (if b.isVirtual then none else some (m.baseTree inner b)) := by
  unfold baseNode?
  split
  · exact (yields_report _).coincide.bind (yields_pure none).coincide
  · apply (coincide_baseRecord h b.record).bind
    apply Yields.coincide
    split
    · exact (yields_report _).bind (yields_pure _)
    · exact yields_pure _

theorem coincide_fieldNode (field : FieldDecl) :
    Coincide (m.fieldNode f field) (m.fieldNode g field) s (m.fieldTree inner field) := by
  unfold fieldNode fieldTree
  cases field.type.record.bind m.complete? with
  | none => exact (yields_pure _).coincide
  | some c => exact (h c).bind (yields_pure _).coincide

/-- All runs inside a record start with the same marks, so it matters only what the runs from these give. -/
theorem coincide_assemble (r : RecordDecl) :
    Coincide (m.assemble f r) (m.assemble g r) s (.ofChildren r.entry (m.parts inner r)) := by
  unfold assemble
  apply (yields_report _).coincide.bind
  apply (coincide_mapM r.bases fun b _ => coincide_baseNode? h r.name b).bind
  apply (coincide_mapM r.fields fun field _ => coincide_fieldNode h field).bind
  rw [filterMap_baseNodes]
  exact (yields_pure _).coincide

end Run

/-- A marked record is cut. -/
theorem expand_marked (m : Model) (room : Nat) {r : RecordDecl} {s : InProgress} (marked : r.id ∈ s.ids) :
    m.expand (room + 1) r s = ⟨(r.cut, s), [.selfContaining r.name r.id]⟩ := by
  have run : m.expand (room + 1) r s = (if fresh : r.id ∉ s.ids then _ else _ : Analysis LayoutTree) s := rfl
  rw [run, dif_neg (not_not_intro marked)]
  rfl

/-- Any other record is put together with its mark set, which is taken off again. -/
theorem expand_fresh (m : Model) (room : Nat) {r : RecordDecl} {s : InProgress} (fresh : r.id ∉ s.ids) :
    m.expand (room + 1) r s =
      let run := m.assemble (m.expand room) r (s.enter r.id fresh)
      ⟨(run.value.1, run.value.2.leave r.id), run.events⟩ := by
  have run : m.expand (room + 1) r s = (if fresh : r.id ∉ s.ids then _ else _ : Analysis LayoutTree) s := rfl
  rw [run, dif_pos fresh]
  let built := m.assemble (m.expand room) r (s.enter r.id fresh)
  have closed : ([] ++ (built.events ++ ([] ++ []))) = built.events := by simp
  exact congrArg (Logged.mk (built.value.1, built.value.2.leave r.id)) closed

/-- Entering a record takes one from the room. -/
theorem room_enter {s : InProgress} {id : RecordId} (fresh : id ∉ s.ids) (below : s.size < maxRecordDepth) :
    s.room = (s.enter id fresh).room + 1 := by
  simp only [InProgress.room, InProgress.size, InProgress.enter, List.length_cons] at below ⊢
  omega

/-- A run gives the tree that the marks determine, and leaves the marks as they were. -/
theorem yields_expand (m : Model) (room : Nat) (r : RecordDecl) (s : InProgress) :
    Yields (m.expand room r) s (m.tree room s.ids r) := by
  induction room generalizing r s with
  | zero => exact (yields_report _).bind (yields_pure _)
  | succ room ih =>
    rw [tree]
    by_cases marked : r.id ∈ s.ids
    · rw [if_pos marked, Yields, expand_marked m room marked]
    · have built : Yields (m.assemble (m.expand room) r) (s.enter r.id marked) _ :=
        (coincide_assemble (fun c => (ih c (s.enter r.id marked)).coincide) r).yields
      rw [if_neg marked, Yields, expand_fresh m room marked]
      simp only
      rw [built, InProgress.leave_enter]
      rfl

/-- Laying out a record inside those in progress keeps the marks. -/
theorem value_analyze (m : Model) (r : RecordDecl) (s : InProgress) :
    (m.analyze r s).value = (m.tree s.room s.ids r, s) :=
  yields_expand m s.room r s

theorem value_layout (m : Model) (r : RecordDecl) : (m.layout r).value = m.tree maxRecordDepth [] r :=
  congrArg Prod.fst (m.value_analyze r .empty)

end Model
end RecordLayout
