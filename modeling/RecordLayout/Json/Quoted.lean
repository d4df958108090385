import RecordLayout.Json.Reader

/-!
# Quoted text

What stands between the quotes of a string, closing quote included. `text` decodes it; `skipText` only
passes over it and so accepts escapes of lone surrogates. Both refuse raw characters below the blank.
-/
namespace RecordLayout.Json.Quoted
open Reader

def hexDigit? (c : Char) : Option Nat :=
  if '0' ≤ c ∧ c ≤ '9' then some (c.toNat - 48)
  else if 'a' ≤ c ∧ c ≤ 'f' then some (c.toNat - 87)
  else if 'A' ≤ c ∧ c ≤ 'F' then some (c.toNat - 55)
  else none

def utf8Size (cs : List Char) : Nat := cs.foldl (fun n c => n + c.utf8Size) 0

/-- The number that four hexadecimal digits write. A text that ends within their four bytes is cut
short, whatever those bytes are. -/
def fourDigits : Reader Nat
  | a :: b :: c :: d :: rest =>
    match hexDigit? a, hexDigit? b, hexDigit? c, hexDigit? d with
    | some a, some b, some c, some d => .ok (((a * 16 + b) * 16 + c) * 16 + d, rest)
    | _, _, _, _ => .error .malformed
  | few => .error (if utf8Size few < 4 then .truncated else .malformed)

def isLeading (n : Nat) : Bool := 0xD800 ≤ n && n ≤ 0xDBFF

def isTrailing (n : Nat) : Bool := 0xDC00 ≤ n && n ≤ 0xDFFF

/-- The character that a pair of surrogates stands for. -/
def paired (leading trailing : Nat) : Char :=
  Char.ofNat (0x10000 + (leading - 0xD800) * 0x400 + (trailing - 0xDC00))

/-- A character by its number, past the letter that announces it. -/
def numbered : Reader Char := do
  let n ← fourDigits
  if isTrailing n then fail .malformed
  else if isLeading n then
    expect '\\'
    expect 'u'
    let m ← fourDigits
    if isTrailing m then return paired n m else fail .malformed
  else return Char.ofNat n

/-- The character that a letter behind a backslash stands for. -/
def lettered? : Char → Option Char
  | '"' => some '"'
  | '\\' => some '\\'
  | '/' => some '/'
  | 'b' => some '\x08'
  | 'f' => some '\x0c'
  | 'n' => some '\n'
  | 'r' => some '\r'
  | 't' => some '\t'
  | _ => none

/-- An escape, past its backslash. -/
def escape : Reader Char
  | [] => .error .truncated
  | c :: rest =>
    if c = 'u' then numbered rest
    else match lettered? c with
      | some d => .ok (d, rest)
      | none => .error .malformed

/-- The next character, or `none` at the closing quote. -/
def next? : Reader (Option Char)
  | [] => .error .truncated
  | c :: rest =>
    if c = '"' then .ok (none, rest)
    else if c = '\\' then (some <$> escape) rest
    else if c.toNat < 32 then .error .malformed
    else .ok (some c, rest)

def text : Reader String :=
  loop (fun acc => do
    match ← next? with
    | some c => return .inl (c :: acc)
    | none => return .inr (String.ofList acc.reverse)) []

/-- Passes over one character or escape; `false` at the closing quote. -/
def skipNext : Reader Bool
  | [] => .error .truncated
  | c :: rest =>
    if c = '"' then .ok (false, rest)
    else if c = '\\' then
      match rest with
      | [] => .error .truncated
      | d :: rest =>
        if d = 'u' then ((fun _ => true) <$> fourDigits) rest
        else if (lettered? d).isSome then .ok (true, rest)
        else .error .malformed
    else if c.toNat < 32 then .error .malformed
    else .ok (true, rest)

def skipText : Reader Unit :=
  loop (fun _ => do return if ← skipNext then .inl () else .inr ()) ()

end RecordLayout.Json.Quoted
