import RecordLayout.Cli.Output

/-!
# The command

Reads the file that a request names, and prints the answer. Colours need a terminal.
-/
open RecordLayout.Cli

def readContents (path : String) : IO (Except ReadFailure String) := do
  try
    let bytes ← IO.FS.readBinFile path
    match String.fromUTF8? bytes with
    | some text => return .ok text
    | none => return .error .notText
  catch e =>
    match e with
    | .noFileOrDirectory .. => return .error .notFound
    | e => return .error (.other (toString e))

def main (argv : List String) : IO UInt32 := do
  let contents ←
    match Request.ofArguments argv with
    | .run i => readContents i.path
    | _ => pure (.error .notFound)
  let color ← (← IO.getStdout).isTty
  let output := run argv (fun _ => contents) color
  (← IO.getStdout).putStr output.stdout
  (← IO.getStderr).putStr output.stderr
  return output.exitCode.toUInt32
