import RecordLayout.Proofs.Analysis.Tree
import RecordLayout.Proofs.Layout.Store
import RecordLayout.Survey

/-!
# The layouts of a survey

A survey is a loop over the record declarations in the order of the text (`value_visitDecls`), each of
which it meets with the same marks. So the layout that it stores for an id is that of the first complete
declaration of the id, unless the store had one before (`get?_foldl_meet`, `get?_survey`).
-/
namespace RecordLayout

/-- What meeting a record declaration does to a survey. -/
def Survey.meet (m : Model) (s : Survey) (r : RecordDecl) : Survey :=
  if r.complete && !s.store.contains r.id then
    { s with
      store := (s.store.insert r.id (m.tree s.inProgress.room s.inProgress.ids r)).2
      inserted := s.inserted + 1 }
  else s

namespace Model

theorem value_visitRecord (m : Model) (r : RecordDecl) (s : Survey) :
    (m.visitRecord r s).value = ((), s.meet m r) := by
  have run : m.visitRecord r s =
      (if !r.complete then _ else if s.store.contains r.id then _ else _ : Surveying Unit) s := rfl
  rw [run, Survey.meet]
  cases complete : r.complete with
  | false => rfl
  | true =>
    cases stored : s.store.contains r.id with
    | true => rfl
    | false =>
      have new : (s.store.insert r.id (m.tree s.inProgress.room s.inProgress.ids r)).1 = true := by
        simp [RecordStore.insert, stored]
      change
        (let built := (m.analyze r s.inProgress).value
          let added := s.store.insert r.id built.1
          ((), Survey.mk added.2 built.2 (if added.1 then s.inserted + 1 else s.inserted))) = _
      simp [m.value_analyze, new]

mutual

/-- A survey meets the record declarations in the order of the text. -/
theorem value_visitDecl (m : Model) : ∀ (d : Decl) (s : Survey),
    (m.visitDecl d s).value = ((), d.records.foldl (fun s x => s.meet m x.1) s)
  | .scope _ ds, s => value_visitDecls m ds s
  | .record r ds, s => by
    have run : (m.visitDecl (.record r ds) s).value = (m.visitDecls ds (m.visitRecord r s).value.2).value := rfl
    rw [run, value_visitRecord, value_visitDecls m ds, Decl.records, List.foldl_cons]
  | .other _ ds, s => value_visitDecls m ds s

theorem value_visitDecls (m : Model) : ∀ (ds : List Decl) (s : Survey),
    (m.visitDecls ds s).value = ((), (Decl.forestRecords ds).foldl (fun s x => s.meet m x.1) s)
  | [], _ => rfl
  | d :: ds, s => by
    have run : (m.visitDecls (d :: ds) s).value = (m.visitDecls ds (m.visitDecl d s).value.2).value := rfl
    rw [run, value_visitDecl m d, value_visitDecls m ds, Decl.forestRecords, List.foldl_append]

end

section Loop

variable (m : Model)

theorem inProgress_meet (s : Survey) (r : RecordDecl) : (s.meet m r).inProgress = s.inProgress := by
  unfold Survey.meet
  split <;> rfl

theorem get?_meet (s : Survey) (r : RecordDecl) (id : RecordId) :
    (s.meet m r).store.get? id =
      (s.store.get? id).or
        (if r.complete ∧ r.id = id then some (m.tree s.inProgress.room s.inProgress.ids r) else none) := by
  unfold Survey.meet
  cases complete : r.complete with
  | false => simp
  | true =>
    cases stored : s.store.contains r.id with
    | false => simp [RecordStore.get?_insert]
    | true =>
      rw [RecordStore.contains_eq_isSome] at stored
      by_cases same : r.id = id
      · subst same
        obtain ⟨t, found⟩ := Option.isSome_iff_exists.1 stored
        simp [found]
      · simp [same]

/-- The first complete declaration of an id gives its layout, unless there is one already. -/
theorem get?_foldl_meet (xs : List (RecordDecl × List Decl)) (s : Survey) (id : RecordId) :
    (xs.foldl (fun s x => s.meet m x.1) s).store.get? id =
      (s.store.get? id).or
        ((xs.find? fun x => x.1.complete && x.1.id = id).map fun x =>
          m.tree s.inProgress.room s.inProgress.ids x.1) := by
  induction xs generalizing s with
  | nil => simp
  | cons x xs ih =>
    rw [List.foldl_cons, ih, get?_meet, inProgress_meet, Option.or_assoc]
    congr 1
    by_cases hit : x.1.complete = true ∧ x.1.id = id
    · simp [hit]
    · have miss : (x.1.complete && decide (x.1.id = id)) = false := by simpa using hit
      simp [hit, miss]

end Loop
end Model

/-- The first complete declaration of an id, in the order of the text. -/
def Decl.firstComplete? (ds : List Decl) (id : RecordId) : Option RecordDecl :=
  ((forestRecords ds).find? fun x => x.1.complete && x.1.id = id).map (·.1)

namespace Program

def firstComplete? (p : Program) (id : RecordId) : Option RecordDecl := Decl.firstComplete? p.decls id

/-- A survey stores the layout of the first complete declaration of each id, and nothing else. -/
theorem get?_survey (p : Program) (itanium : p.target.isItanium = true) (id : RecordId) :
    p.survey.value.2.get? id = (p.firstComplete? id).map fun r => (p.model.layout r).value := by
  have run : p.survey.value.2 = (p.model.visitDecls p.decls (.start .empty)).value.2.store := by
    rw [survey, if_pos itanium]
    rfl
  rw [run, Model.value_visitDecls, Model.get?_foldl_meet, firstComplete?, Decl.firstComplete?, Option.map_map]
  simp [Survey.start, Model.value_layout, Function.comp_def]
  rfl

theorem layout_of_get?_survey {p : Program} {id : RecordId} {t : LayoutTree}
    (stored : p.survey.value.2.get? id = some t) :
    ∃ r, p.firstComplete? id = some r ∧ t = (p.model.layout r).value := by
  cases itanium : p.target.isItanium with
  | false =>
    have nothing : p.survey.value.2 = .empty := by
      rw [survey, if_neg (by simp [itanium])]
      rfl
    simp [nothing] at stored
  | true =>
    rw [get?_survey p itanium, Option.map_eq_some_iff] at stored
    obtain ⟨r, first, built⟩ := stored
    exact ⟨r, first, built.symm⟩

end Program
end RecordLayout
