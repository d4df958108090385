import RecordLayout.Json.Number
import RecordLayout.Json.Quoted

/-!
# Reading JSON

`value depth` reads a value that opens at most `depth` brackets within each other. `skip` passes over
a value of any depth and checks its grammar only. `nextItem` and `nextKey?` go through arrays and
objects for readers that want more than a value.
-/
namespace RecordLayout.Json
open Reader

/-- A value that opens no bracket. -/
def scalar : Reader Value := fun cs =>
  match dropBlanks cs with
  | [] => .error .truncated
  | c :: rest =>
    if c = 'n' then ((fun _ => .null) <$> word ['u', 'l', 'l']) rest
    else if c = 't' then ((fun _ => .bool true) <$> word ['r', 'u', 'e']) rest
    else if c = 'f' then ((fun _ => .bool false) <$> word ['a', 'l', 's', 'e']) rest
    else if c = '"' then (.string <$> Quoted.text) rest
    else if c = '-' || c.isDigit then number (c :: rest)
    else .error .malformed

/-- Goes to the next item of an array, past the comma before it; `false` past the closing bracket. -/
def nextItem (first : Bool) : Reader Bool := fun cs =>
  match dropBlanks cs with
  | [] => .error .truncated
  | c :: rest =>
    if c = ']' then .ok (false, rest)
    else if first then .ok (true, c :: rest)
    else if c = ',' then
      match dropBlanks rest with
      | [] => .error .truncated
      | d :: rest => if d = ']' then .error .malformed else .ok (true, d :: rest)
    else .error .malformed

/-- The next key of an object, past the comma before it; `none` past the closing brace. -/
def nextKey? (first : Bool) : Reader (Option String) := fun cs =>
  match dropBlanks cs with
  | [] => .error .truncated
  | c :: rest =>
    if c = '}' then .ok (none, rest)
    else if first then
      if c = '"' then (some <$> Quoted.text) rest else .error .malformed
    else if c = ',' then
      match dropBlanks rest with
      | [] => .error .truncated
      | d :: rest => if d = '"' then (some <$> Quoted.text) rest else .error .malformed
    else .error .malformed

/-- The colon between key and value. -/
def colon : Reader Unit := fun cs => expect ':' (dropBlanks cs)

/-- The items of an array, past its opening bracket. -/
def items {α : Type} (item : Reader α) : Reader (List α) :=
  loop (fun acc => do
    if ← nextItem acc.isEmpty then return .inl ((← item) :: acc)
    else return .inr acc.reverse) []

/-- The members of an object, past its opening brace. -/
def members {α : Type} (item : Reader α) : Reader (List (String × α)) :=
  loop (fun acc => do
    match ← nextKey? acc.isEmpty with
    | some k => do
      colon
      return .inl ((k, ← item) :: acc)
    | none => return .inr acc.reverse) []

def value : Nat → Reader Value
  | 0 => fun cs =>
    match dropBlanks cs with
    | '[' :: _ => .error .malformed
    | '{' :: _ => .error .malformed
    | cs => scalar cs
  | depth + 1 => fun cs =>
    match dropBlanks cs with
    | '[' :: rest => (.array <$> items (value depth)) rest
    | '{' :: rest => (.object <$> members (value depth)) rest
    | cs => scalar cs

/-- The whole text is one value. -/
def parse (depth : Nat) (text : String) : Except Fault Value := whole (value depth) text

inductive Bracket where
  | square | curly
  deriving DecidableEq, Repr

def Bracket.closing : Bracket → Char
  | .square => ']'
  | .curly => '}'

/-- Where a reader is that passes over a value; the brackets are those around it, innermost first. -/
inductive Skipping where
  | value (around : List Bracket)
  | opened (b : Bracket) (around : List Bracket)
  | after (b : Bracket) (around : List Bracket)

namespace Skipping

/-- A value has come to its end. -/
def done : List Bracket → Skipping ⊕ Unit
  | [] => .inr ()
  | b :: around => .inl (.after b around)

def skipValue (around : List Bracket) : Reader (Skipping ⊕ Unit) := fun cs =>
  match dropBlanks cs with
  | [] => .error .truncated
  | c :: rest =>
    if c = '[' then .ok (.inl (.opened .square around), rest)
    else if c = '{' then .ok (.inl (.opened .curly around), rest)
    else if c = 'n' then ((fun _ => done around) <$> word ['u', 'l', 'l']) rest
    else if c = 't' then ((fun _ => done around) <$> word ['r', 'u', 'e']) rest
    else if c = 'f' then ((fun _ => done around) <$> word ['a', 'l', 's', 'e']) rest
    else if c = '"' then ((fun _ => done around) <$> Quoted.skipText) rest
    else if c = '-' || c.isDigit then ((fun _ => done around) <$> skipNumber) (c :: rest)
    else .error .malformed

def skipKey : Reader Unit := do
  fun cs => expect '"' (dropBlanks cs)
  Quoted.skipText
  colon

def step : Skipping → Reader (Skipping ⊕ Unit)
  | .value around => skipValue around
  | .opened b around => fun cs =>
    match dropBlanks cs with
    | [] => .error .truncated
    | c :: rest =>
      if c = b.closing then .ok (done around, rest)
      else match b with
        | .square => skipValue (b :: around) (c :: rest)
        | .curly => (skipKey *> skipValue (b :: around)) (c :: rest)
  | .after b around => fun cs =>
    match dropBlanks cs with
    | [] => .error .truncated
    | c :: rest =>
      if c = b.closing then .ok (done around, rest)
      else if c = ',' then
        match b with
        | .square => skipValue (b :: around) rest
        | .curly => (skipKey *> skipValue (b :: around)) rest
      else .error .malformed

end Skipping

/-- Passes over a value. -/
def skip : Reader Unit := loop Skipping.step (.value [])

end RecordLayout.Json
