import RecordLayout.Json.Binary64
import RecordLayout.Json.Reader
import RecordLayout.Json.Value
import RecordLayout.Text

/-!
# Numbers

A number is a sign, whole digits, and perhaps a fraction and an exponent. Without the latter two it is
an integer if 64 bits hold it (`-0` they do not); all else is real and must not overflow. What is the
fault of a number that the text cuts short depends on who reads it, so the parts take it as a
parameter.
-/
namespace RecordLayout.Json
open Reader

/-- A number as it is written. -/
structure Numeral where
  negative : Bool
  whole : List Char
  fraction : Option (List Char)
  exponent : Option Int

namespace Numeral

def sign : Reader Bool
  | '-' :: rest => .ok (true, rest)
  | cs => .ok (false, cs)

/-- One digit or more. -/
def digits (cut : Fault) : Reader (List Char) := fun cs =>
  match cs with
  | [] => .error cut
  | c :: rest =>
    if c.isDigit then .ok (c :: rest.takeWhile Char.isDigit, rest.dropWhile Char.isDigit)
    else .error .malformed

/-- Digits with no zero ahead of another digit. -/
def wholeDigits (cut : Fault) : Reader (List Char) := fun cs =>
  match cs with
  | '0' :: d :: rest => if d.isDigit then .error .malformed else .ok (['0'], d :: rest)
  | cs => digits cut cs

def fractionDigits (cut : Fault) : Reader (Option (List Char)) := fun cs =>
  match cs with
  | '.' :: rest => (some <$> digits cut) rest
  | cs => .ok (none, cs)

def exponentSign : Reader Bool
  | '-' :: rest => .ok (true, rest)
  | '+' :: rest => .ok (false, rest)
  | cs => .ok (false, cs)

def exponentPart (cut : Fault) : Reader (Option Int) := fun cs =>
  match cs with
  | c :: rest =>
    if c = 'e' || c = 'E' then
      (do
        let negative ← exponentSign
        let n := Text.decimalValue (← digits cut)
        return some (if negative then -(n : Int) else n)) rest
    else .ok (none, c :: rest)
  | [] => .ok (none, [])

/-- Reads a numeral; `cut` is the fault of one that the text cuts short. -/
def read (cut : Fault) : Reader Numeral := do
  let negative ← sign
  let whole ← wholeDigits cut
  let fraction ← fractionDigits cut
  let exponent ← exponentPart cut
  return ⟨negative, whole, fraction, exponent⟩

/-- Appends digits to a significand as long as 64 bits hold it, and gives back the others. -/
def extend (n : Nat) : List Char → Nat × List Char
  | [] => (n, [])
  | d :: ds =>
    let m := n * 10 + (d.toNat - 48)
    if m < UInt64.size then extend m ds else (n, d :: ds)

/-- The numeral is beyond the finite numbers. Digits that the significand has no room for count as
zeros. -/
def overflows (x : Numeral) : Bool :=
  let fraction := x.fraction.getD []
  let (n, dropped) := extend 0 x.whole
  let (m, unread) := extend n fraction
  let places : Int := dropped.length - (fraction.length - unread.length : Nat)
  Binary64.overflows m (places + x.exponent.getD 0)

/-- The integer that a numeral writes, if it is one of 64 bits. -/
def integer? (x : Numeral) : Option Int :=
  if x.fraction.isNone && x.exponent.isNone then
    let n := Text.decimalValue x.whole
    if x.negative then if 0 < n ∧ Int64.minValue.toInt ≤ -(n : Int) then some (-(n : Int)) else none
    else if n < UInt64.size then some n else none
  else none

end Numeral

def number : Reader Value := do
  let x ← Numeral.read .truncated
  match x.integer? with
  | some n => return .integer n
  | none => if x.overflows then fail .malformed else return .real

/-- Passes over a number of any size. -/
def skipNumber : Reader Unit := do
  let _ ← Numeral.read .malformed

end RecordLayout.Json
