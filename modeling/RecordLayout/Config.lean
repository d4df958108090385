import RecordLayout.Event
import RecordLayout.Text

/-!
# Configuration

The arguments of the front end: one text, split at blanks, out of which the target triple is taken.
-/
namespace RecordLayout

def defaultArguments : String := "--target=x86_64-pc-linux-gnu"

structure Config where
  args : String := defaultArguments
  deriving DecidableEq, Repr

/-- Goes through the arguments with the triple found so far. The last selection counts, a value that
follows its key is never read as a key, and without any selection the default triple is taken. -/
def selectTriple (found : Option String) : List String → Logged (Except FrontendError String)
  | [] => return .ok (found.getD Target.defaultTriple)
  | arg :: rest =>
    match Text.after? "--target=" arg with
    | some triple => selectTriple (some triple) rest
    | none =>
      if arg = "-target" ∨ arg = "--target" then
        match rest with
        | [] => return .error (.missingArgValue arg)
        | triple :: rest => selectTriple (some triple) rest
      else do
        Logged.note (.ignoredArgument arg)
        selectTriple found rest

/-- The target triple that the arguments select. -/
def targetTriple (args : List String) : Logged (Except FrontendError String) := selectTriple none args

namespace Config

/-- Replaces the arguments; none at all mean the default ones. -/
def setArgs (_ : Config) (args : String) : Config := ⟨if args = "" then defaultArguments else args⟩

/-- The arguments one by one: the pieces between blanks, less the empty ones. -/
def splitArgs (c : Config) : List String :=
  ((Text.pieces ' ' c.args.toList).filter (· ≠ [])).map String.ofList

def targetTriple (c : Config) : Logged (Except FrontendError String) :=
  RecordLayout.targetTriple c.splitArgs

end Config
end RecordLayout
