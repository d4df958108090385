import RecordLayout.Analysis
import RecordLayout.Layout.Store
import RecordLayout.Program

/-!
# Surveys

A survey goes through declarations in the order of the text and stores the layout of every complete
record it meets, unless the store has one for that id. It counts what it stored.
-/
namespace RecordLayout

structure Survey where
  store : RecordStore
  inProgress : InProgress := .empty
  inserted : Nat := 0

/-- A survey that goes on with a store. -/
def Survey.start (store : RecordStore) : Survey := { store }

abbrev Surveying := StateT Survey Logged

namespace Model

def visitRecord (m : Model) (r : RecordDecl) : Surveying Unit := do
  let survey ← get
  if !r.complete then Logged.note (.skippedForward r.name r.id)
  else if survey.store.contains r.id then return ()
  else
    let (t, inProgress) ← m.analyze r survey.inProgress
    let (stored, store) := survey.store.insert r.id t
    set (Survey.mk store inProgress (if stored then survey.inserted + 1 else survey.inserted))

mutual

def visitDecl (m : Model) : Decl → Surveying Unit
  | .scope _ ds => visitDecls m ds
  | .record r ds => do
    m.visitRecord r
    visitDecls m ds
  | .other _ ds => visitDecls m ds

def visitDecls (m : Model) : List Decl → Surveying Unit
  | [] => return ()
  | d :: ds => do
    visitDecl m d
    visitDecls m ds

end

/-- Visits declarations and all that is nested in them; gives what the survey has stored so far. -/
def visit (m : Model) (ds : List Decl) : Surveying Nat := do
  m.visitDecls ds
  return (← get).inserted

end Model

namespace Program

/-- What the layouts of a program depend on. -/
def model (p : Program) : Model := ⟨p.target, p.record?⟩

/-- Lays out all complete records of a program, if its target has the right object model. -/
def survey (p : Program) : Logged (Nat × RecordStore) :=
  if p.target.isItanium then do
    let (count, survey) ← p.model.visit p.decls (.start .empty)
    Logged.note (.analyzed count p.target.triple)
    return (count, survey.store)
  else do
    Logged.note (.unsupportedAbi p.target.triple p.target.abi)
    return (0, .empty)

end Program
end RecordLayout
