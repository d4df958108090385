import RecordLayout.Frontend
import RecordLayout.Layout.Rendering
import RecordLayout.Survey

/-!
# Sessions

A session holds a configuration, a front end, the layouts of the last pass and the last listing of
them. A pass starts afresh, and one that fails leaves no layouts. Queries never fail: without a layout
the answer is the empty object.
-/
namespace RecordLayout

structure Session where
  frontend : Frontend := .dump
  config : Config := {}
  store : RecordStore := .empty
  /-- The listing as it was last asked for, empty since the last reset. -/
  listing : String := ""

namespace Session

def configure (s : Session) (args : String) : Session := { s with config := s.config.setArgs args }

/-- Drops the layouts and keeps the configuration. -/
def reset (s : Session) : Session := { s with store := .empty, listing := "" }

/-- A pass over a source; gives the number of records it laid out. -/
def analyze (s : Session) (source : String) : Logged (Nat × Session) := do
  match ← s.frontend.parse source s.config.splitArgs with
  | .error e =>
    Logged.note (.noDeclarations e)
    return (0, s.reset)
  | .ok program =>
    let (count, store) ← program.survey
    return (count, { s.reset with store })

/-- The listing of the stored layouts, which the session remembers. -/
def listRecords (s : Session) : String × Session :=
  (s.store.renderListing, { s with listing := s.store.renderListing })

/-- The rendered layout of a record. -/
def layoutOf (s : Session) (id : RecordId) : String :=
  match s.store.get? id with
  | some t => t.render
  | none => "\x7b\x7d"

end Session
end RecordLayout
