import RecordLayout.Cli.Options
import RecordLayout.Declaration
import RecordLayout.Text

/-!
# Requests

What a command line asks for. Options may stand before and after the subcommand, each at most once on
either side. A subcommand takes the path of a dump, `layout` a record id as well. Help is given behind
arguments that are right so far.
-/
namespace RecordLayout.Cli

inductive Verb where
  | list | layout | dump | check
  deriving DecidableEq, Repr

namespace Verb

def ofName? (s : String) : Option Verb :=
  if s = "list" then some list
  else if s = "layout" then some layout
  else if s = "dump" then some dump
  else if s = "check" then some check
  else none

end Verb

/-- What to show of the layouts. -/
inductive Query where
  | list
  | layout (id : RecordId)
  | dump
  | check
  deriving DecidableEq, Repr

structure Invocation where
  query : Query
  path : String
  args : String := ""
  logLevel : String := "warn"
  noColor : Bool := false
  deriving DecidableEq, Repr

inductive Request where
  | run (i : Invocation)
  | version
  | help
  | misuse
  deriving DecidableEq, Repr

def natOfDigits? (ds : List Char) : Option Nat :=
  if !ds.isEmpty && ds.all Char.isDigit then some (Text.decimalValue ds) else none

/-- A decimal id: a sign or none, digits, and a value of 64 bits. -/
def recordId? (s : String) : Option RecordId := do
  let n : Int ←
    match s.toList with
    | '-' :: ds => (natOfDigits? ds).map fun n => -(n : Int)
    | '+' :: ds => (natOfDigits? ds).map fun n => (n : Int)
    | ds => (natOfDigits? ds).map fun n => (n : Int)
  if Int64.minValue.toInt ≤ n ∧ n ≤ Int64.maxValue.toInt then some (Int64.ofInt n) else none

/-- Whether these can be the first arguments of a subcommand that are no options. A path must not be
empty. -/
def admits (verb : Verb) : List String → Bool
  | [] => true
  | [path] => path ≠ ""
  | [path, id] => verb = .layout && path ≠ "" && (recordId? id).isSome
  | _ => false

/-- The query of a subcommand with its path. -/
def query? : Verb → List String → Option (Query × String)
  | .list, [path] => some (.list, path)
  | .dump, [path] => some (.dump, path)
  | .check, [path] => some (.check, path)
  | .layout, [path, id] => (recordId? id).map fun id => (.layout id, path)
  | _, _ => none

/-- The request of a subcommand with all its arguments and options. -/
def request (verb : Verb) (o : Options) (positional : List String) : Request :=
  match query? verb positional with
  | none => .misuse
  | some (query, path) =>
    if path = "" then .misuse
    else .run ⟨query, path, o.args.getD "", o.logLevel.getD "warn", o.noColor⟩

/-- The arguments behind a subcommand, where `outer` are the options ahead of it. -/
def parseVerb (verb : Verb) (outer inner : Options) (positional : List String) :
    List String → Request
  | [] => request verb (inner.within outer) positional
  | arg :: rest =>
    let idDue := verb = .layout && positional.length = 1
    if idDue && passesForId arg then parseVerb verb outer inner (positional ++ [arg]) rest
    else
      match token true arg with
      | .plain => parseVerb verb outer inner (positional ++ [arg]) rest
      | .endOfOptions => request verb (inner.within outer) (positional ++ rest)
      | .switch .help => if admits verb positional then .help else .misuse
      | .switch .noColor =>
        match inner.setNoColor with
        | some inner => parseVerb verb outer inner positional rest
        | none => .misuse
      | .switch (.value key v) =>
        match inner.set v key with
        | some inner => parseVerb verb outer inner positional rest
        | none => .misuse
      | .switch (.awaiting key) =>
        match rest with
        | [] => .misuse
        | v :: rest =>
          if token true v = .plain || (idDue && passesForId v) then
            match inner.set v key with
            | some inner => parseVerb verb outer inner positional rest
            | none => .misuse
          else .misuse
      | .switch _ => .misuse

/-- What stands behind the subcommand for help: nothing, or one subcommand. -/
def helpOn : List String → Request
  | [] => .help
  | [name] => if (Verb.ofName? name).isSome || name = "help" then .help else .misuse
  | _ => .misuse

/-- The arguments up to the subcommand. -/
def parseOuter (outer : Options) : List String → Request
  | [] => .misuse
  | arg :: rest =>
    match token false arg with
    | .plain =>
      match Verb.ofName? arg with
      | some verb => parseVerb verb outer {} [] rest
      | none => if arg = "help" then helpOn rest else .misuse
    | .switch .help => .help
    | .switch .version => .version
    | .switch .noColor =>
      match outer.setNoColor with
      | some outer => parseOuter outer rest
      | none => .misuse
    | .switch (.value key v) =>
      match outer.set v key with
      | some outer => parseOuter outer rest
      | none => .misuse
    | .switch (.awaiting key) =>
      match rest with
      | [] => .misuse
      | v :: rest =>
        if token false v = .plain then
          match outer.set v key with
          | some outer => parseOuter outer rest
          | none => .misuse
        else .misuse
    | _ => .misuse

def Request.ofArguments (argv : List String) : Request := parseOuter {} argv

end RecordLayout.Cli
