import RecordLayout.Proofs.Survey.Layouts
import RecordLayout.Session

/-!
# What sessions store

A pass stores what the survey of the parsed program does, or nothing. So whatever operations led to a
session, each of its layouts is the layout of a record by itself (`Reachable.stored`).
-/
namespace RecordLayout.Session

/-- A pass starts from a reset session, and fills it if the source is a program. -/
theorem value_analyze (s : Session) (source : String) :
    (s.analyze source).value =
      match (s.frontend.parse source s.config.splitArgs).value with
      | .error _ => (0, s.reset)
      | .ok p => (p.survey.value.1, { s.reset with store := p.survey.value.2 }) := by
  have run : (s.analyze source).value =
      (match (s.frontend.parse source s.config.splitArgs).value with
        | .error e => _
        | .ok p => _ : Logged (Nat × Session)).value := rfl
  rw [run]
  cases (s.frontend.parse source s.config.splitArgs).value <;> rfl

theorem store_analyze {s : Session} {source : String} {p : Program}
    (parsed : (s.frontend.parse source s.config.splitArgs).value = .ok p) :
    (s.analyze source).value.2.store = p.survey.value.2 := by
  rw [value_analyze, parsed]

theorem store_analyze_error {s : Session} {source : String} {e : FrontendError}
    (failed : (s.frontend.parse source s.config.splitArgs).value = .error e) :
    (s.analyze source).value.2.store = .empty := by
  rw [value_analyze, failed]
  rfl

theorem get?_analyze {s : Session} {source : String} {id : RecordId} {t : LayoutTree}
    (stored : (s.analyze source).value.2.store.get? id = some t) :
    ∃ (p : Program) (r : RecordDecl), p.firstComplete? id = some r ∧ t = (p.model.layout r).value := by
  cases parsed : (s.frontend.parse source s.config.splitArgs).value with
  | error e =>
    simp [store_analyze_error parsed] at stored
  | ok p =>
    rw [store_analyze parsed] at stored
    obtain ⟨r, first, built⟩ := Program.layout_of_get?_survey stored
    exact ⟨p, r, first, built⟩

/-- The sessions that operations lead to from a new one. Rendering a layout changes nothing. -/
inductive Reachable : Session → Prop
  | start (frontend : Frontend) : Reachable { frontend }
  | configure {s : Session} (before : Reachable s) (args : String) : Reachable (s.configure args)
  | analyze {s : Session} (before : Reachable s) (source : String) : Reachable (s.analyze source).value.2
  | reset {s : Session} (before : Reachable s) : Reachable s.reset
  | listRecords {s : Session} (before : Reachable s) : Reachable s.listRecords.2

/-- Every stored layout is that of the first complete declaration of its id in some program. -/
theorem Reachable.stored {s : Session} (reached : s.Reachable) {id : RecordId} {t : LayoutTree}
    (stored : s.store.get? id = some t) :
    ∃ (p : Program) (r : RecordDecl), p.firstComplete? id = some r ∧ t = (p.model.layout r).value := by
  induction reached with
  | start frontend =>
    have nothing : RecordStore.empty.get? id = some t := stored
    simp at nothing
  | configure before args ih => exact ih stored
  | analyze before source ih => exact get?_analyze stored
  | reset before ih =>
    have nothing : RecordStore.empty.get? id = some t := stored
    simp at nothing
  | listRecords before ih => exact ih stored

end RecordLayout.Session
