/-!
# JSON values

A value as the readers of this library need it. Integers are those of 64 bits, signed or unsigned; any
other number is `real`, and since no shape accepts one, all of them are alike. An object keeps its
members as they were written; of several members with one key the last one counts (`member?`).
-/
namespace RecordLayout.Json

inductive Value where
  | null
  | bool (b : Bool)
  | integer (n : Int)
  | real
  | string (s : String)
  | array (vs : List Value)
  | object (ms : List (String × Value))
  deriving Repr

/-- A word as a number. -/
def Value.ofWord (n : UInt64) : Value := .integer n.toNat

mutual

/-- The number of brackets that a value opens within each other. -/
def Value.depth : Value → Nat
  | .array vs => itemsDepth vs + 1
  | .object ms => membersDepth ms + 1
  | _ => 0

def itemsDepth : List Value → Nat
  | [] => 0
  | v :: vs => max v.depth (itemsDepth vs)

def membersDepth : List (String × Value) → Nat
  | [] => 0
  | (_, v) :: ms => max v.depth (membersDepth ms)

end

/-- The value of the last member with this key. -/
def member? (key : String) : List (String × Value) → Option Value
  | [] => none
  | (k, v) :: ms => (member? key ms).or (if k = key then some v else none)

end RecordLayout.Json
