import Mathlib.Logic.Relation
import RecordLayout.Proofs.Analysis.Tree

/-!
# One analyzer for many records

The marks are carried from one analysis to the next, and inside an analysis from one member to the next. `Calls` has
the analyses that an analysis makes, each with the marks that the members before it have left. All of them end with
the marks that they started with, so records laid out in sequence have the layouts and the events that each has by
itself (`analyses_independent`).
-/
namespace RecordLayout
open Analysis Relation

namespace Model

/-- Laying out the first record, from marks `s`, lays out the second as a part of it. The marks of that second
analysis are what is left of those that the first has set once all members before the part have been laid out. -/
inductive Calls (m : Model) : RecordDecl × InProgress → RecordDecl × InProgress → Prop
  | base {r c : RecordDecl} {s : InProgress} {before after : List BaseSpec} {b : BaseSpec}
      (below : s.size < maxRecordDepth) (fresh : r.id ∉ s.ids) (listed : r.bases = before ++ b :: after)
      (direct : b.isVirtual = false) (named : m.complete? b.record = some c) :
      Calls m (r, s) (c, (before.mapM (m.baseNode? m.analyze r.name) (s.enter r.id fresh)).value.2)
  | field {r c : RecordDecl} {s : InProgress} {before after : List FieldDecl} {f : FieldDecl}
      (below : s.size < maxRecordDepth) (fresh : r.id ∉ s.ids) (listed : r.fields = before ++ f :: after)
      (named : f.type.record.bind m.complete? = some c) :
      Calls m (r, s) (c, ((do
        let _ ← r.bases.mapM (m.baseNode? m.analyze r.name)
        before.mapM (m.fieldNode m.analyze)) (s.enter r.id fresh)).value.2)

variable (m : Model)

theorem yields_analyze (r : RecordDecl) (s : InProgress) : Yields (m.analyze r) s (m.tree s.room s.ids r) :=
  m.value_analyze r s

theorem value_mapM_bases (s : InProgress) (owner : String) (bs : List BaseSpec) :
    (bs.mapM (m.baseNode? m.analyze owner) s).value.2 = s := by
  have each := coincide_baseNode? (m := m) (fun c => (m.yields_analyze c s).coincide) owner
  exact congrArg Prod.snd (coincide_mapM bs fun b _ => each b).yields

theorem value_mapM_fields (s : InProgress) (fs : List FieldDecl) :
    (fs.mapM (m.fieldNode m.analyze) s).value.2 = s := by
  have each := coincide_fieldNode (m := m) fun c => (m.yields_analyze c s).coincide
  exact congrArg Prod.snd (coincide_mapM fs fun f _ => each f).yields

variable {m}

/-- Every part starts with the marks around the record and the record's own, whatever was laid out before it. -/
theorem Calls.marks {x y : RecordDecl × InProgress} (call : m.Calls x y) : y.2.ids = x.1.id :: x.2.ids := by
  cases call with
  | base below fresh listed direct named =>
    rw [m.value_mapM_bases]
    rfl
  | @field r c s before after f below fresh listed named =>
    have run : ∀ t : InProgress, ((do
        let _ ← r.bases.mapM (m.baseNode? m.analyze r.name)
        before.mapM (m.fieldNode m.analyze) : Analysis (List LayoutTree)) t).value.2 =
          (before.mapM (m.fieldNode m.analyze) (r.bases.mapM (m.baseNode? m.analyze r.name) t).value.2).value.2 :=
      fun _ => rfl
    rw [run, m.value_mapM_bases, m.value_mapM_fields]
    rfl

/-- Inside an analysis all the marks that it started with are set. -/
theorem suffix_of_calls {x y : RecordDecl × InProgress} (calls : ReflTransGen m.Calls x y) :
    x.2.ids <:+ y.2.ids := by
  induction calls with
  | refl => exact List.suffix_refl _
  | tail _ last ih =>
    rw [last.marks]
    exact ih.trans (List.suffix_cons _ _)

variable (m)

/-- Analyses in sequence go on from the same marks, so each gives and reports what it does from these. -/
theorem mapM_analyze (rs : List RecordDecl) (s : InProgress) :
    rs.mapM m.analyze s =
      ⟨(rs.map fun r => (m.analyze r s).value.1, s), rs.flatMap fun r => (m.analyze r s).events⟩ := by
  induction rs with
  | nil => rfl
  | cons r rs ih =>
    have run : (r :: rs).mapM m.analyze s =
        let first := m.analyze r s
        let rest := rs.mapM m.analyze first.value.2
        ⟨(first.value.1 :: rest.value.1, rest.value.2), first.events ++ (rest.events ++ [])⟩ := by
      rw [List.mapM_cons]
      rfl
    have kept : (m.analyze r s).value.2 = s := congrArg Prod.snd (m.value_analyze r s)
    rw [run]
    simp only [kept, ih, List.append_nil, List.map_cons, List.flatMap_cons]

theorem events_layout (r : RecordDecl) : (m.layout r).events = (m.analyze r .empty).events :=
  List.append_nil _

end Model

/-- An analyzer may be used again and again. Analyses in sequence give the layouts and report the events that the
records have by themselves, and no marks are left. Each of them ends with the marks that it started with, and so does
every analysis that it makes on its way, at any depth; no mark that was set before is missing there. -/
theorem analyses_independent (m : Model) (rs : List RecordDecl) :
    rs.mapM m.analyze .empty =
      ⟨(rs.map fun r => (m.layout r).value, .empty), rs.flatMap fun r => (m.layout r).events⟩ ∧
    ∀ earlier r later, rs = earlier ++ r :: later →
      let s := (earlier.mapM m.analyze .empty).value.2
      (m.analyze r s).value = ((m.layout r).value, s) ∧ (m.analyze r s).events = (m.layout r).events ∧
      ∀ c s', ReflTransGen m.Calls (r, s) (c, s') → (m.analyze c s').value.2 = s' ∧ s.ids <:+ s'.ids := by
  have alone : ∀ r, (m.analyze r .empty).value.1 = (m.layout r).value := fun _ => rfl
  have sequence : ∀ cs : List RecordDecl, cs.mapM m.analyze .empty =
      ⟨(cs.map fun r => (m.layout r).value, .empty), cs.flatMap fun r => (m.layout r).events⟩ := by
    intro cs
    simp only [m.mapM_analyze, m.events_layout, alone]
  refine ⟨sequence rs, ?_⟩
  intro earlier r later _
  rw [sequence earlier]
  refine ⟨?_, (m.events_layout r).symm, ?_⟩
  · rw [m.value_analyze, m.value_layout]
    rfl
  · intro c s' calls
    exact ⟨congrArg Prod.snd (m.value_analyze c s'), Model.suffix_of_calls calls⟩

end RecordLayout
