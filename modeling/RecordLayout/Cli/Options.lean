/-!
# Options

What an argument of the command line is: an option, the mark that ends the options, or plain. An option
takes its value behind `=`, from the next argument, or, with a single dash, right behind its letter.
-/
namespace RecordLayout.Cli

/-- The options that take a value. -/
inductive Key where
  | args | logLevel
  deriving DecidableEq, Repr

/-- The options given at one level of the command line. -/
structure Options where
  args : Option String := none
  logLevel : Option String := none
  noColor : Bool := false
  deriving DecidableEq, Repr

namespace Options

/-- Sets an option that has not been set at this level. -/
def set (o : Options) (value : String) : Key → Option Options
  | .args => if o.args.isSome then none else some { o with args := some value }
  | .logLevel => if o.logLevel.isSome then none else some { o with logLevel := some value }

def setNoColor (o : Options) : Option Options :=
  if o.noColor then none else some { o with noColor := true }

/-- Options of a deeper level take precedence over those around them. -/
def within (inner outer : Options) : Options :=
  ⟨inner.args.or outer.args, inner.logLevel.or outer.logLevel, inner.noColor || outer.noColor⟩

end Options

/-- What an argument with a dash in front says. -/
inductive Switch where
  | value (k : Key) (v : String)
  | awaiting (k : Key)
  | noColor
  | help
  | version
  /-- A known option that takes no value, but has one. -/
  | overfull
  | unknown
  deriving DecidableEq, Repr

inductive Token where
  | plain
  /-- Two dashes, after which nothing is an option. -/
  | endOfOptions
  | switch (s : Switch)
  deriving DecidableEq, Repr

/-- A long option by its name; `inner` is the level of a subcommand, where there is no version. -/
def longSwitch (inner : Bool) (name : String) (value? : Option String) : Switch :=
  if name = "args" then (value?.map (.value .args)).getD (.awaiting .args)
  else if name = "log-level" then (value?.map (.value .logLevel)).getD (.awaiting .logLevel)
  else if name = "no-color" then if value?.isSome then .overfull else .noColor
  else if name = "help" then if value?.isSome then .overfull else .help
  else if name = "version" && !inner then if value?.isSome then .overfull else .version
  else .unknown

/-- A short option by its letter and what stands right behind it. -/
def shortSwitch (inner : Bool) (letter : Char) (behind : List Char) : Switch :=
  if letter = 'l' then
    match behind with
    | [] => .awaiting .logLevel
    | '=' :: value => .value .logLevel (String.ofList value)
    | value => .value .logLevel (String.ofList value)
  else if letter = 'h' then .help
  else if letter = 'V' && !inner then .version
  else .unknown

def token (inner : Bool) (arg : String) : Token :=
  match arg.toList with
  | ['-', '-'] => .endOfOptions
  | '-' :: '-' :: long =>
    let name := String.ofList (long.takeWhile (· ≠ '='))
    match long.dropWhile (· ≠ '=') with
    | [] => .switch (longSwitch inner name none)
    | _ :: value => .switch (longSwitch inner name (some (String.ofList value)))
  | ['-'] => .plain
  | '-' :: letter :: behind => .switch (shortSwitch inner letter behind)
  | _ => .plain

/-- Where a record id is due, an argument with a dash in front is taken for it unless it is a known long
option or has known letters only. -/
def passesForId (arg : String) : Bool :=
  match arg.toList with
  | ['-', '-'] => false
  | '-' :: '-' :: _ => token true arg = .switch .unknown
  | '-' :: letters => letters.any fun c => c ≠ 'l' && c ≠ 'h'
  | _ => false

end RecordLayout.Cli
