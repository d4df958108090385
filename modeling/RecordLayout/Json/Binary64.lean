/-!
# The range of binary floating point

Which decimal numbers have a finite value of 64 bits. A number is a significand times a power of ten;
both are rounded to 53 bits, then their product is. Nothing else of floating point matters here, so
all is exact arithmetic on natural numbers.
-/
namespace RecordLayout.Json.Binary64

/-- The nearest number of at most 53 significant bits; a tie goes to the even one. -/
def round (n : Nat) : Nat :=
  if n.log2 < 53 then n
  else
    let unit := 1 <<< (n.log2 - 52)
    let q := n / unit
    let r := n % unit
    if unit < 2 * r ∨ (unit = 2 * r ∧ q % 2 = 1) then (q + 1) * unit else q * unit

/-- The least number that rounds beyond the largest finite one: half a unit above it. -/
def overflowBound : Nat := (1 <<< 1024) - (1 <<< 970)

/-- Whether `significand * 10 ^ exponent` is too large to be finite. -/
def overflows (significand : Nat) (exponent : Int) : Bool :=
  significand ≠ 0 && 0 ≤ exponent &&
    (308 < exponent || overflowBound ≤ round significand * round (Nat.pow 10 exponent.toNat))

end RecordLayout.Json.Binary64
