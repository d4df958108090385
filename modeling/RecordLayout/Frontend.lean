import RecordLayout.Config
import RecordLayout.Dump
import RecordLayout.Program

/-!
# Front ends

A front end makes a program out of a source text and arguments. `Frontend.dump` reads a dump for the
target that the arguments select; arguments are checked first, then the target, then the text, and
last whether the text was meant for that target.
-/
namespace RecordLayout

structure Frontend where
  parse : String → List String → Logged (Except FrontendError Program)

namespace Frontend

/-- The program of a dump that is meant for any target or for this one. -/
def programOf (target : Target) (dump : Dump.Contents) : Except FrontendError Program :=
  match dump.target with
  | none => .ok (.ofDecls target dump.decls)
  | some triple =>
    if triple = target.triple then .ok (.ofDecls target dump.decls)
    else .error (.targetMismatch triple target.triple)

def parseDump (source triple : String) : Except FrontendError Program :=
  match Target.ofTriple? triple with
  | none => .error (.unsupportedTarget triple)
  | some target =>
    match Dump.parse source with
    | .error fault => .error (.malformedDump fault)
    | .ok dump => programOf target dump

def dump : Frontend where
  parse source args := do
    match ← targetTriple args with
    | .error e => return .error e
    | .ok triple => return parseDump source triple

/-- Gives one and the same program, whatever the source and the arguments. -/
def fixed (result : Except FrontendError Program) : Frontend where
  parse _ _ := return result

end Frontend
end RecordLayout
