import RecordLayout.Json.Value

/-!
# Writing JSON

Compact text: no blanks, members in their given order. A string escapes the quote, the backslash and
the characters below the blank, and nothing else; the five with a letter of their own use it, the
others four hexadecimal digits. `Value.write v rest` writes `v` in front of `rest`.
-/
namespace RecordLayout.Json

/-- The letters of the digits above nine in an escape. -/
inductive HexCase where
  | upper | lower
  deriving DecidableEq, Repr

def HexCase.digit (hex : HexCase) (n : Nat) : Char :=
  if n < 10 then Char.ofNat (48 + n)
  else match hex with
    | .upper => Char.ofNat (55 + n)
    | .lower => Char.ofNat (87 + n)

/-- A character as it stands between quotes. -/
def escaped (hex : HexCase) (c : Char) : List Char :=
  match c with
  | '"' => ['\\', '"']
  | '\\' => ['\\', '\\']
  | '\x08' => ['\\', 'b']
  | '\x0c' => ['\\', 'f']
  | '\n' => ['\\', 'n']
  | '\r' => ['\\', 'r']
  | '\t' => ['\\', 't']
  | c =>
    if c.toNat < 32 then ['\\', 'u', '0', '0', hex.digit (c.toNat / 16), hex.digit (c.toNat % 16)]
    else [c]

def writeString (hex : HexCase) (s : String) (rest : List Char) : List Char :=
  '"' :: (s.toList.flatMap (escaped hex) ++ '"' :: rest)

def writeInteger (n : Int) (rest : List Char) : List Char :=
  match n with
  | .ofNat k => Nat.toDigits 10 k ++ rest
  | .negSucc k => '-' :: (Nat.toDigits 10 (k + 1) ++ rest)

/-- The comma before every item but the first. -/
def separated (first : Bool) (rest : List Char) : List Char := if first then rest else ',' :: rest

mutual

def Value.write (hex : HexCase) : Value → List Char → List Char
  | .null, rest => 'n' :: 'u' :: 'l' :: 'l' :: rest
  | .bool true, rest => 't' :: 'r' :: 'u' :: 'e' :: rest
  | .bool false, rest => 'f' :: 'a' :: 'l' :: 's' :: 'e' :: rest
  | .integer n, rest => writeInteger n rest
  | .real, rest => '0' :: '.' :: '5' :: rest
  | .string s, rest => writeString hex s rest
  | .array vs, rest => '[' :: writeItems hex true vs (']' :: rest)
  | .object ms, rest => '{' :: writeMembers hex true ms ('}' :: rest)

def writeItems (hex : HexCase) (first : Bool) : List Value → List Char → List Char
  | [], rest => rest
  | v :: vs, rest => separated first (v.write hex (writeItems hex false vs rest))

def writeMembers (hex : HexCase) (first : Bool) : List (String × Value) → List Char → List Char
  | [], rest => rest
  | (k, v) :: ms, rest =>
    separated first (writeString hex k (':' :: v.write hex (writeMembers hex false ms rest)))

end

def Value.render (hex : HexCase) (v : Value) : String := String.ofList (v.write hex [])

end RecordLayout.Json
