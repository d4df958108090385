import RecordLayout.Cli.Request
import RecordLayout.Layout.Check
import RecordLayout.Session
import RecordLayout.Text.ControlSequence

/-!
# Answers of the command line

What a request prints and its exit code. Standard output holds the answer alone; standard error has the
events that the log level lets through, without controls, then a status line. A dump that cannot be analyzed is not an
error of the command, a file that cannot be read and a layout with a breach are.
-/
namespace RecordLayout.Cli

structure Output where
  exitCode : UInt8
  stdout : String := ""
  stderr : String := ""
  deriving DecidableEq, Repr

/-- Why a file could not be read. -/
inductive ReadFailure where
  | notFound
  | notText
  | other (reason : String)
  deriving DecidableEq, Repr

def ReadFailure.reason : ReadFailure → String
  | notFound => "No such file or directory (os error 2)"
  | notText => "stream did not contain valid UTF-8"
  | other reason => reason

/-- The least grave level to show, or `none` for silence. An unknown name means `warn`. -/
def threshold (name : String) : Option Level :=
  let name := String.ofList (name.toList.map Char.toLower)
  if name = "trace" then some .trace
  else if name = "debug" then some .debug
  else if name = "info" then some .info
  else if name = "error" then some .error
  else if name = "off" then none
  else some .warn

def shows (least : Option Level) (e : Event) : Bool :=
  least.any fun l => l.severity ≤ e.level.severity

def line (s : String) : String := s ++ "\n"

/-- Further lines of an event are indented. Controls in it are left out, and so is the end of the line
inside a string that is left open. -/
def eventLine (e : Event) : String :=
  let indented := e.text.toList.flatMap fun c => if c = '\n' then '\n' :: "    ".toList else [c]
  e.level.name ++ " " ++ String.ofList (Text.ControlSequence.strip (indented ++ ['\n']))

def concat (parts : List String) : String := parts.foldl (· ++ ·) ""

def logText (least : Option Level) (es : List Event) : String :=
  concat ((es.filter (shows least)).map eventLine)

/-- The mark at the start of a line. -/
inductive Mark where
  | status | failure | doubt | success
  deriving DecidableEq, Repr

def Mark.text : Mark → String
  | status => "[*]"
  | failure => "[!]"
  | doubt => "[?]"
  | success => "[+]"

def Mark.colorCode : Mark → String
  | status => "34"
  | failure => "31"
  | doubt => "33"
  | success => "32"

def Mark.show (color : Bool) (m : Mark) : String :=
  if color then "\x1b[" ++ m.colorCode ++ "m" ++ m.text ++ "\x1b[0m" else m.text

/-- The lines of `check` for one layout. -/
def checkLines (color : Bool) (id : RecordId) (t : LayoutTree) : List String :=
  match t.violations with
  | [] =>
    if t.entry.valid then [line s!"{Mark.success.show color} #{id} {t.entry.typeName}"]
    else [line s!"{Mark.doubt.show color} #{id} {t.entry.typeName} contains invalid declarations"]
  | vs =>
    vs.map fun v => line s!"{Mark.failure.show color} #{id} {(LayoutError.validationFailed v).message}"

def violationCount (store : RecordStore) : Nat :=
  (store.toList.flatMap fun (_, t) => t.violations).length

/-- What a query prints about a session. -/
def queryText (color : Bool) (s : Session) : Query → String
  | .list => line s.listRecords.1
  | .layout id => line (s.layoutOf id)
  | .dump => concat (s.store.ids.map fun id => line (s.layoutOf id))
  | .check => concat (s.store.toList.flatMap fun (id, t) => checkLines color id t)

/-- Answers a query about the dump that `contents` is the text of. -/
def answer (i : Invocation) (color : Bool) (contents : Except ReadFailure String) : Output :=
  match contents with
  | .error failure =>
    ⟨1, "", line s!"{Mark.failure.show color} Failed to read {i.path}: {failure.reason}"⟩
  | .ok source =>
    let pass := (({} : Session).configure i.args).analyze source
    let (count, session) := pass.value
    let log := logText (threshold i.logLevel) pass.events
      ++ line s!"{Mark.status.show color} Analyzed {count} records from {i.path}"
    let text := queryText color session i.query
    let breaches := violationCount session.store
    if i.query = .check ∧ breaches ≠ 0 then
      ⟨1, text, log ++ line s!"{Mark.failure.show color} {breaches} layout violations"⟩
    else ⟨0, text, log⟩

def versionText : String := "cxx-layout 1.0.0"

def usageText : String := "Usage: cxx-layout [OPTIONS] <list|layout|dump|check> <DUMP> [ID]"

/-- Answers a command line; `readFile` gives the text of a file, `color` allows for colours. -/
def run (argv : List String) (readFile : String → Except ReadFailure String) (color : Bool) : Output :=
  match Request.ofArguments argv with
  | .run i => answer i (color && !i.noColor) (readFile i.path)
  | .version => ⟨0, line versionText, ""⟩
  | .help => ⟨0, line usageText, ""⟩
  | .misuse => ⟨2, "", line usageText⟩

end RecordLayout.Cli
