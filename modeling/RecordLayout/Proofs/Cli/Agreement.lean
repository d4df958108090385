import RecordLayout.Proofs.Cli.Check
import RecordLayout.Proofs.Json.Lines
import RecordLayout.Proofs.Session.History
import RecordLayout.Proofs.Session.Queries

/-!
# What the subcommands print of one file

`list`, `layout` and `dump` of one file with one argument string show the same pass. A dump has one line for
each entry of the listing, the one that `layout` prints for its id, and their number is the one on the status
line (`commands_agree`).
-/
namespace RecordLayout.Cli
open Json

/-! ## Command lines -/

/-- A command line that asks for this. Behind the two dashes, nothing is an option. -/
def commandLine (path args : String) : Query → List String
  | .list => ["--args=" ++ args, "list", "--", path]
  | .layout id => ["--args=" ++ args, "layout", "--", path, toString id]
  | .dump => ["--args=" ++ args, "dump", "--", path]
  | .check => ["--args=" ++ args, "check", "--", path]

theorem ofArguments_verb (args : String) {path name : String} {verb : Verb} {query : Query} {behind : List String}
    (plain : token false name = .plain) (known : Verb.ofName? name = some verb)
    (asks : query? verb behind = some (query, path)) (named : path ≠ "") :
    Request.ofArguments (("--args=" ++ args) :: name :: "--" :: behind) =
      .run ⟨query, path, args, "warn", false⟩ := by
  have dashes : token true "--" = .endOfOptions := by decide
  unfold Request.ofArguments
  simp [parseOuter, parseVerb, token_args, plain, known, dashes, Options.set, request, asks, named, Options.within]

/-- Every query can be asked about every file with every argument string. -/
theorem ofArguments_commandLine (query : Query) (args : String) {path : String} (named : path ≠ "") :
    Request.ofArguments (commandLine path args query) = .run ⟨query, path, args, "warn", false⟩ := by
  have list : Verb.ofName? "list" = some .list := by decide
  have layout : Verb.ofName? "layout" = some .layout := by decide
  have dump : Verb.ofName? "dump" = some .dump := by decide
  have check : Verb.ofName? "check" = some .check := by decide
  cases query with
  | list => exact ofArguments_verb args (by decide) list rfl named
  | layout id =>
    have asks : query? .layout [path, toString id] = some (.layout id, path) := by
      rw [query?, recordId?_toString]
      rfl
    exact ofArguments_verb args (by decide) layout asks named
  | dump => exact ofArguments_verb args (by decide) dump rfl named
  | check => exact ofArguments_verb args (by decide) check rfl named

/-! ## Outputs -/

/-- The output of a command line that asks for this with `args` about the file at `path`, which reads `source`.
The log level and the colours are left open. -/
def Outcome (path source args : String) (query : Query) (o : Output) : Prop :=
  ∃ (argv : List String) (readFile : String → Except ReadFailure String) (color : Bool) (logLevel : String)
    (noColor : Bool), Request.ofArguments argv = .run ⟨query, path, args, logLevel, noColor⟩ ∧
    readFile path = .ok source ∧ run argv readFile color = o

def statusLine (color : Bool) (n : Nat) (path : String) : String :=
  line s!"{Mark.status.show color} Analyzed {n} records from {path}"

/-- A success with `n` records on the status line, whatever has been logged before it. -/
structure Output.Reports (o : Output) (n : Nat) (path : String) : Prop where
  success : o.exitCode = 0
  status : ∃ log color, o.stderr = log ++ statusLine color n path

/-- The session after the pass of a command. -/
def passed (args source : String) : Session := ((({} : Session).configure args).analyze source).value.2

theorem reachable_passed (args source : String) : (passed args source).Reachable :=
  ((Session.Reachable.start .dump).configure args).analyze source

/-- All queries but `check` succeed. -/
theorem answer_of_ne_check {i : Invocation} (other : i.query ≠ .check) (color : Bool) (source : String) :
    ∃ log, answer i color (.ok source) =
      ⟨0, queryText color (passed i.args source) i.query,
        log ++ statusLine color (passed i.args source).store.size i.path⟩ := by
  have counted := ((({} : Session).configure i.args).passes source).counted
  unfold answer passed
  dsimp only
  generalize (({} : Session).configure i.args).analyze source = pass at counted ⊢
  obtain ⟨⟨count, session⟩, events⟩ := pass
  rw [if_neg fun breach => other breach.1, ← counted]
  exact ⟨_, rfl⟩

theorem exists_outcome {path : String} (named : path ≠ "") (source args : String) (query : Query) :
    ∃ o, Outcome path source args query o :=
  ⟨_, commandLine path args query, fun _ => .ok source, false, "warn", false,
    ofArguments_commandLine query args named, rfl, rfl⟩

theorem Outcome.answered {path source args : String} {query : Query} {o : Output}
    (outcome : Outcome path source args query o) (other : query ≠ .check) :
    o.Reports (passed args source).store.size path ∧
      ∃ color, o.stdout = queryText color (passed args source) query := by
  obtain ⟨argv, readFile, color, logLevel, noColor, asked, readable, rfl⟩ := outcome
  obtain ⟨log, answered⟩ :=
    answer_of_ne_check (i := ⟨query, path, args, logLevel, noColor⟩) other (color && !noColor) source
  rw [run, asked]
  dsimp only
  rw [readable, answered]
  exact ⟨⟨rfl, log, color && !noColor, rfl⟩, color && !noColor, rfl⟩

/-! ## Lines -/

theorem toList_concat (parts : List String) : (concat parts).toList = parts.flatMap String.toList :=
  String.toList_join

theorem pieces_concat_lines {docs : List String} (printed : ∀ doc ∈ docs, Printed doc.toList) :
    Text.pieces '\n' (concat (docs.map line)).toList = docs.map String.toList ++ [[]] := by
  have ended : ∀ doc, (line doc).toList = doc.toList ++ ['\n'] := fun doc => String.toList_append
  have absent : ∀ cs ∈ docs.map String.toList, '\n' ∉ cs := by
    intro cs mem
    obtain ⟨doc, listed, rfl⟩ := List.mem_map.1 mem
    exact (printed doc listed).not_mem (by decide)
  have text : (concat (docs.map line)).toList = (docs.map String.toList).flatMap fun cs => cs ++ ['\n'] := by
    rw [toList_concat, List.flatMap_map, List.flatMap_map]
    exact List.flatMap_congr fun doc _ => ended doc
  rw [text, Text.pieces_lines absent]

theorem printed_layoutOf (s : Session) (id : RecordId) : Printed (s.layoutOf id).toList := by
  unfold Session.layoutOf
  cases s.store.get? id with
  | none => simp
  | some t => exact printed_render .upper t.toJson

/-! ## One file -/

/-- What the commands give for the file at `path`: `entries` is what the listing says and `docs` are the lines
of the dump. -/
structure Agree (path source args : String) (entries : List (RecordId × String)) (docs : List String) : Prop where
  /-- Only a file without a name cannot be asked about. -/
  asked : path ≠ "" → ∀ query, ∃ o, Outcome path source args query o
  reports : ∀ query o, query ≠ .check → Outcome path source args query o → o.Reports docs.length path
  list : ∀ o, Outcome path source args .list o →
    ∃ listing, o.stdout = line listing ∧ listedEntries? listing = some entries
  dump : ∀ o, Outcome path source args .dump o →
    Text.pieces '\n' o.stdout.toList = docs.map String.toList ++ [[]]
  complete : ∀ doc ∈ docs, ∃ ms, parse doc.length doc = .ok (.object ms)
  /-- There are as many entries as lines, and each entry's layout is the line at its place. -/
  layout : List.Forall₂ (fun e doc => ∀ o, Outcome path source args (.layout e.1) o → o.stdout = line doc)
    entries docs
  unlisted : ∀ id ∉ entries.map (·.1), ∀ o, Outcome path source args (.layout id) o → o.stdout = "\x7b\x7d\n"

/-- The arguments or the text are refused, or the target has another object model. -/
def Rejected (source args : String) : Prop :=
  let result := (Frontend.dump.parse source (({} : Config).setArgs args).splitArgs).value
  (∃ e, result = .error e) ∨ ∃ p, result = .ok p ∧ p.target.abi = .microsoft

theorem passed_of_rejected {source args : String} (rejected : Rejected source args) :
    (passed args source).store = .empty :=
  (((({} : Session).configure args).passes source).failed rejected).2

/-- The lines of a dump. -/
def dumpLines (s : Session) : List String := s.store.entries.map fun e => s.layoutOf e.1

theorem queryText_dump (color : Bool) (s : Session) : queryText color s .dump = concat ((dumpLines s).map line) := by
  rw [queryText, dumpLines, ← RecordStore.map_fst_entries, List.map_map, List.map_map]
  rfl

theorem agree_passed (path source args : String) :
    Agree path source args (passed args source).store.entries (dumpLines (passed args source)) := by
  have lists := (reachable_passed args source).lists
  refine ⟨fun named => exists_outcome named source args, ?_, ?_, ?_, ?_, ?_, ?_⟩
  · intro query o other outcome
    rw [dumpLines, List.length_map, RecordStore.length_entries]
    exact (outcome.answered other).1
  · intro o outcome
    obtain ⟨-, color, text⟩ := outcome.answered (by decide)
    exact ⟨_, text, lists.listing⟩
  · intro o outcome
    obtain ⟨-, color, text⟩ := outcome.answered (by decide)
    have printed : ∀ doc ∈ dumpLines (passed args source), Printed doc.toList := by
      intro doc mem
      obtain ⟨e, -, rfl⟩ := List.mem_map.1 mem
      exact printed_layoutOf _ e.1
    rw [text, queryText_dump, pieces_concat_lines printed]
  · intro doc mem
    obtain ⟨e, listed, rfl⟩ := List.mem_map.1 mem
    obtain ⟨ms, read, -⟩ := lists.shown e.1 e.2 listed _ (Nat.le_refl _)
    exact ⟨ms, read⟩
  · rw [dumpLines, List.forall₂_map_right_iff, List.forall₂_same]
    intro e _ o outcome
    obtain ⟨-, color, text⟩ := outcome.answered (by simp)
    exact text
  · intro id missing o outcome
    obtain ⟨-, color, text⟩ := outcome.answered (by simp)
    have empty : (passed args source).layoutOf id = "\x7b\x7d" := (lists.unlisted id).2 missing
    rw [text, queryText, empty]
    rfl

/-- The subcommands agree on one file and one argument string, given to them in any way. They succeed and
report the same number of records. That many documents stand in the dump, each on a line of its own; the
listing has an entry for each, and `layout` prints the same line for its id, or the empty object for an id
that is not listed. If the arguments or the text are refused, there are none. -/
theorem commands_agree (path source args : String) :
    ∃ (entries : List (RecordId × String)) (docs : List String), Agree path source args entries docs ∧
      (Rejected source args → docs = [] ∧ ∀ o, Outcome path source args .list o → o.stdout = "[]\n") := by
  refine ⟨_, _, agree_passed path source args, ?_⟩
  intro rejected
  have nothing := passed_of_rejected rejected
  have empty : RecordStore.empty.toList = [] := by rfl
  refine ⟨?_, ?_⟩
  · rw [dumpLines, nothing, RecordStore.entries, empty]
    rfl
  · intro o outcome
    obtain ⟨-, color, text⟩ := outcome.answered (by decide)
    rw [text, queryText, Session.listRecords, nothing, RecordStore.renderListing, RecordStore.listing, empty]
    rfl

-- A line break in a name does not break the line.
example :
    (run (commandLine "a" "-x" .dump)
      (fun _ => .ok "\x7b\"decls\":[\x7b\"kind\":\"record\",\"id\":-1,\"name\":\"A\\nB\"\x7d]\x7d") false).stdout =
    "\x7b\"fieldType\":\"Record\",\"type\":\"A\\nB\",\"size\":0,\"align\":0,\"offset\":0,\"subFields\":[]\x7d\n" := by
  cbv

end RecordLayout.Cli
