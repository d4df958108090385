import RecordLayout.Json.Reader

/-!
# Front-end errors

Why no program could be had, with the text that names each cause.
-/
namespace RecordLayout

inductive FrontendError where
  | malformedDump (fault : Json.Fault)
  | unsupportedTarget (triple : String)
  | targetMismatch (dump configured : String)
  | missingArgValue (argument : String)
  deriving DecidableEq, Repr

/-- The text of each cause. That of a malformed dump goes on with a colon and the reader's account of the fault, its
line and its column; that account is left out here. -/
def FrontendError.message : FrontendError → String
  | malformedDump _ => "Malformed declaration dump"
  | unsupportedTarget triple => s!"Unsupported target: {triple}"
  | targetMismatch dump configured =>
    s!"Dump was produced for {dump}, configured target is {configured}"
  | missingArgValue argument => s!"Missing value for argument {argument}"

end RecordLayout
