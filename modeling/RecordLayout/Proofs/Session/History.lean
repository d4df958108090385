import RecordLayout.Proofs.Session.Reachable
import RecordLayout.Proofs.Survey.Sequence

/-!
# Histories of sessions

What a session holds after any calls: the configuration is that of the last `configure`, the layouts are
those of the last pass unless the session was reset since, and the remembered listing is that of these
layouts. A pass does not depend on anything before it but the configuration (`results_of_last_pass`).
Histories are lists of calls with the latest one first.
-/
namespace RecordLayout

/-- The calls on a session. -/
inductive Call where
  | configure (args : String)
  | analyze (source : String)
  | reset
  | listRecords
  | layoutOf (id : RecordId)
  | config
  deriving DecidableEq, Repr

inductive Answer where
  | done
  | count (n : Nat)
  | text (t : String)
  | config (c : Config)
  deriving DecidableEq, Repr

namespace Call

/-- The call drops the layouts that are stored. -/
def discards : Call → Bool
  | analyze _ => true
  | reset => true
  | _ => false

/-- The call replaces the arguments. -/
def configures : Call → Bool
  | configure _ => true
  | _ => false

/-- The arguments of the last `configure`; none at all are the default ones. -/
def argsInForce : List Call → String
  | [] => ""
  | configure args :: _ => args
  | _ :: earlier => argsInForce earlier

/-- The source of the last pass and the calls before it, unless the session was reset since. -/
def passInForce? : List Call → Option (String × List Call)
  | [] => none
  | analyze source :: earlier => some (source, earlier)
  | reset :: _ => none
  | _ :: earlier => passInForce? earlier

end Call

namespace Session

/-- What a session answers to a call, and the session after it. -/
def perform (s : Session) : Call → Logged (Answer × Session)
  | .configure args => return (.done, s.configure args)
  | .analyze source => do
    let (count, s) ← s.analyze source
    return (.count count, s)
  | .reset => return (.done, s.reset)
  | .listRecords => return (.text s.listRecords.1, s.listRecords.2)
  | .layoutOf id => return (.text (s.layoutOf id), s)
  | .config => return (.config s.config, s)

/-- The session after calls. -/
def after (s : Session) : List Call → Session
  | [] => s
  | c :: earlier => ((s.after earlier).perform c).value.2

theorem session_perform_analyze (s : Session) (source : String) :
    (s.perform (.analyze source)).value.2 = (s.analyze source).value.2 := rfl

/-! ## One pass -/

theorem config_analyze (s : Session) (source : String) : (s.analyze source).value.2.config = s.config := by
  rw [value_analyze]
  split <;> rfl

theorem frontend_analyze (s : Session) (source : String) : (s.analyze source).value.2.frontend = s.frontend := by
  rw [value_analyze]
  split <;> rfl

theorem listing_analyze (s : Session) (source : String) : (s.analyze source).value.2.listing = "" := by
  rw [value_analyze]
  split <;> rfl

/-- A pass looks at the front end and the configuration alone. -/
theorem analyze_congr {s s' : Session} (frontend : s.frontend = s'.frontend) (config : s.config = s'.config)
    (source : String) : s.analyze source = s'.analyze source := by
  cases s
  cases s'
  subst frontend config
  rfl

end Session

theorem isEmpty_empty : RecordStore.empty.isEmpty = true := rfl

namespace Program

/-- A survey counts the layouts it stores. -/
theorem size_survey (p : Program) : p.survey.value.1 = p.survey.value.2.size := by
  cases itanium : p.target.isItanium with
  | false =>
    have nothing : p.survey.value = (0, .empty) := by
      rw [survey, if_neg (by simp [itanium])]
      rfl
    rw [nothing]
    rfl
  | true =>
    have run : p.survey.value =
        ((p.model.visit p.decls (.start .empty)).value.1, (p.model.visit p.decls (.start .empty)).value.2.store) := by
      rw [survey, if_pos itanium]
      rfl
    have counted := Survey.size_meetAll p.model (.start .empty) p.decls
    rw [run, Model.value_visit]
    simpa [Survey.start, RecordStore.size, RecordStore.empty] using counted.symm

theorem survey_of_microsoft {p : Program} (abi : p.target.abi = .microsoft) : p.survey.value = (0, .empty) := by
  rw [survey, if_neg (by simp [Target.isItanium, abi])]
  rfl

end Program

/-- What a pass of `s` over `source` amounts to: it counts what it stores and keeps the configuration. It
stores something only if the front end makes a program of the source, and one for the right object model;
else it gives 0 and leaves no layouts. -/
structure Session.Passes (s : Session) (source : String) : Prop where
  counted : (s.analyze source).value.1 = (s.analyze source).value.2.store.size
  configured : (s.analyze source).value.2.config = s.config
  filled : (s.analyze source).value.2.store.isEmpty = false →
    ∃ p, (s.frontend.parse source s.config.splitArgs).value = .ok p ∧ p.target.abi = .itanium
  failed : ((∃ e, (s.frontend.parse source s.config.splitArgs).value = .error e) ∨
      ∃ p, (s.frontend.parse source s.config.splitArgs).value = .ok p ∧ p.target.abi = .microsoft) →
    (s.analyze source).value.1 = 0 ∧ (s.analyze source).value.2.store = .empty

namespace Session

theorem passes (s : Session) (source : String) : s.Passes source := by
  cases parsed : (s.frontend.parse source s.config.splitArgs).value with
  | error e =>
    have run : (s.analyze source).value = (0, s.reset) := by rw [value_analyze, parsed]
    have nothing : (s.analyze source).value.2.store = .empty := by rw [run]; rfl
    refine ⟨?_, config_analyze s source, ?_, ?_⟩
    · rw [run]
      rfl
    · intro nonempty
      rw [nothing, isEmpty_empty] at nonempty
      cases nonempty
    · intro _
      exact ⟨congrArg Prod.fst run, nothing⟩
  | ok p =>
    have run : (s.analyze source).value = (p.survey.value.1, { s.reset with store := p.survey.value.2 }) := by
      rw [value_analyze, parsed]
    refine ⟨?_, config_analyze s source, ?_, ?_⟩
    · rw [run]
      exact p.size_survey
    · intro nonempty
      cases abi : p.target.abi with
      | itanium => exact ⟨p, parsed, abi⟩
      | microsoft =>
        rw [run, Program.survey_of_microsoft abi, isEmpty_empty] at nonempty
        cases nonempty
    · rintro (⟨e, failed⟩ | ⟨q, succeeded, abi⟩)
      · rw [parsed] at failed
        cases failed
      · rw [parsed, Except.ok.injEq] at succeeded
        subst succeeded
        rw [run, Program.survey_of_microsoft abi]
        exact ⟨rfl, rfl⟩

/-! ## Any calls -/

theorem frontend_perform (s : Session) (c : Call) : (s.perform c).value.2.frontend = s.frontend := by
  cases c with
  | analyze source => exact frontend_analyze s source
  | _ => rfl

theorem store_perform (s : Session) {c : Call} (keeps : c.discards = false) :
    (s.perform c).value.2.store = s.store := by
  cases c with
  | analyze source => cases keeps
  | reset => cases keeps
  | _ => rfl

theorem config_perform (s : Session) {c : Call} (keeps : c.configures = false) :
    (s.perform c).value.2.config = s.config := by
  cases c with
  | analyze source => exact config_analyze s source
  | configure args => cases keeps
  | _ => rfl

/-- The remembered listing is that of the store, or has been dropped. -/
def Listed (s : Session) : Prop := s.listing = "" ∨ s.listing = s.store.renderListing

theorem Listed.perform {s : Session} (listed : s.Listed) (c : Call) : (s.perform c).value.2.Listed := by
  cases c with
  | analyze source => exact .inl (listing_analyze s source)
  | reset => exact .inl rfl
  | listRecords => exact .inr rfl
  | _ => exact listed

variable (s : Session)

theorem listed_after (listed : s.Listed) (history : List Call) : (s.after history).Listed := by
  induction history with
  | nil => exact listed
  | cons c earlier ih => exact ih.perform c

theorem frontend_after (history : List Call) : (s.after history).frontend = s.frontend := by
  induction history with
  | nil => rfl
  | cons c earlier ih => rw [after, frontend_perform, ih]

end Session

namespace Session

variable (frontend : Frontend)

theorem config_after (history : List Call) :
    (after { frontend } history).config = ({} : Config).setArgs (Call.argsInForce history) := by
  induction history with
  | nil => rfl
  | cons c earlier ih =>
    cases c with
    | configure args => rfl
    | _ =>
      rw [after, config_perform _ rfl, ih]
      rfl

/-- Giving a session the arguments that it has changes nothing. -/
theorem setArgs_after (history : List Call) :
    ({} : Config).setArgs (after { frontend } history).config.args = (after { frontend } history).config := by
  rw [config_after, Config.setArgs, Config.setArgs]
  by_cases none : Call.argsInForce history = ""
  · rw [if_pos none]
    rfl
  · rw [if_neg none, if_neg none]

/-- A pass after any calls is a pass of a new session with the same arguments. -/
theorem analyze_after (history : List Call) (source : String) :
    (after { frontend } history).analyze source =
      (configure { frontend } (after { frontend } history).config.args).analyze source := by
  apply analyze_congr
  · rw [frontend_after]
    rfl
  · exact (setArgs_after frontend history).symm

theorem store_after (history : List Call) :
    (after { frontend } history).store =
      match Call.passInForce? history with
      | none => .empty
      | some (source, earlier) =>
        ((configure { frontend } (Call.argsInForce earlier)).analyze source).value.2.store := by
  induction history with
  | nil => rfl
  | cons c earlier ih =>
    cases c with
    | analyze source =>
      have same : (after { frontend } earlier).analyze source =
          (configure { frontend } (Call.argsInForce earlier)).analyze source := by
        apply analyze_congr
        · exact frontend_after _ earlier
        · exact config_after frontend earlier
      rw [after, session_perform_analyze, same]
      rfl
    | reset => rfl
    | _ =>
      rw [after, store_perform _ rfl, ih]
      rfl

end Session

/-- After any calls on a session, latest first: its configuration is that of the last `configure`. Its
layouts are those that a new session with the arguments of that time gets from the source of the last
pass, unless it was reset since. The remembered listing is that of these layouts or has been dropped. A
pass gives what it gives to a new session with the present arguments, its events among that. Other calls
keep the layouts, all but `reset`, and the configuration, all but `configure`. -/
theorem results_of_last_pass (frontend : Frontend) (history : List Call) :
    let fresh : Session := { frontend }
    let s := fresh.after history
    s.config = ({} : Config).setArgs (Call.argsInForce history) ∧
    s.store = (match Call.passInForce? history with
      | none => .empty
      | some (source, earlier) => ((fresh.configure (Call.argsInForce earlier)).analyze source).value.2.store) ∧
    s.Listed ∧
    (∀ source, s.analyze source = (fresh.configure s.config.args).analyze source ∧ s.Passes source) ∧
    (∀ c : Call, (c.discards = false → (s.perform c).value.2.store = s.store) ∧
      (c.configures = false → (s.perform c).value.2.config = s.config)) := by
  refine ⟨?_, ?_, ?_, ?_, ?_⟩
  · exact Session.config_after frontend history
  · exact Session.store_after frontend history
  · exact Session.listed_after _ (.inl rfl) history
  · intro source
    exact ⟨Session.analyze_after frontend history source, Session.passes _ source⟩
  · intro c
    exact ⟨Session.store_perform _, Session.config_perform _⟩

end RecordLayout
