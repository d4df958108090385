import RecordLayout.Json.Document

/-!
# Typed reading

Readers that know which shape they want and check it while they read. A structure is written as an
object or as the array of its members in their order. Its known keys may come in any order but once
each, the values of other keys are passed over, and members at the end of the array may be missing; in
either form it is up to the caller what a missing member means. `depth` counts the brackets that may
still be opened.
-/
namespace RecordLayout.Json
open Reader

/-- A value of the wrong shape. Only one that opens no bracket is read first, faults and all. -/
def misshapen {α : Type} : Reader α := fun cs =>
  match dropBlanks cs with
  | '[' :: _ => .error .misshapen
  | '{' :: _ => .error .misshapen
  | cs => (scalar *> fail .misshapen) cs

/-- Past an opening bracket: `inside` with what is left of the depth. -/
def deeper {α : Type} (depth : Nat) (inside : Nat → Reader α) : Reader α :=
  match depth with
  | 0 => fail .malformed
  | depth + 1 => inside depth

def readText : Reader String := fun cs =>
  match dropBlanks cs with
  | '"' :: rest => Quoted.text rest
  | cs => misshapen cs

/-- Reads null, or what `r` reads. -/
def readNullable {α : Type} (r : Reader α) : Reader (Option α) := fun cs =>
  match dropBlanks cs with
  | 'n' :: rest => ((fun _ => none) <$> word ['u', 'l', 'l']) rest
  | cs => (some <$> r) cs

def readNull : Reader Unit := fun cs =>
  match dropBlanks cs with
  | 'n' :: rest => word ['u', 'l', 'l'] rest
  | cs => misshapen cs

/-- An unsigned integer of 64 bits. -/
def word64? : Value → Option UInt64
  | .integer n => if 0 ≤ n ∧ n < UInt64.size then some (UInt64.ofNat n.toNat) else none
  | _ => none

def readWord64 : Reader UInt64 := fun cs =>
  match dropBlanks cs with
  | [] => .error .truncated
  | c :: rest =>
    if c = '-' || c.isDigit then
      (do
        match word64? (← number) with
        | some n => return n
        | none => fail .misshapen) (c :: rest)
    else misshapen (c :: rest)

def readList {α : Type} (depth : Nat) (item : Nat → Reader α) : Reader (List α) := fun cs =>
  match dropBlanks cs with
  | '[' :: rest => deeper depth (fun depth => items (item depth)) rest
  | cs => misshapen cs

/-- A known member of a structure that is read into a state `σ`. -/
structure Member (σ : Type) where
  key : String
  given : σ → Bool
  read : Nat → σ → Reader σ

/-- The array form, past its opening bracket. -/
def positional {σ : Type} (depth : Nat) (first : Bool) (s : σ) : List (Member σ) → Reader σ
  | [] => fun cs => ((fun _ => s) <$> expect ']') (dropBlanks cs)
  | m :: ms => do
    if ← nextItem first then positional depth false (← m.read depth s) ms else return s

/-- The object form, past its opening brace. A repeated key is refused before its colon. -/
def keyed {σ : Type} (depth : Nat) (ms : List (Member σ)) (s : σ) : Reader σ :=
  loop (fun (first, s) => do
    match ← nextKey? first with
    | none => return .inr s
    | some k =>
      match ms.find? fun m => m.key = k with
      | some m =>
        if m.given s then fail .misshapen
        else
          colon
          return .inl (false, ← m.read depth s)
      | none =>
        colon
        skip
        return .inl (false, s)) (true, s)

def structured {σ : Type} (depth : Nat) (ms : List (Member σ)) (s : σ) : Reader σ := fun cs =>
  match dropBlanks cs with
  | '[' :: rest => deeper depth (fun depth => positional depth true s ms) rest
  | '{' :: rest => deeper depth (fun depth => keyed depth ms s) rest
  | cs => misshapen cs

/-- The brackets that a text may open within each other. -/
def maxDepth : Nat := 127

end RecordLayout.Json
