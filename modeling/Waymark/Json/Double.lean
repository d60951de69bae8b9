/-!
# Numbers as doubles

A reader takes a number as the digits that fit in 64 bits, times a power of ten. It rounds both to
doubles before it multiplies them, so close to the largest double the result may be infinite where
the number itself is not, or the other way round.
-/

namespace Waymark.Json.Double

/-- The nearest number with 53 binary digits, and of two the one whose last digit is zero. -/
def nearest (n : Nat) : Nat :=
  let unit := Nat.pow 2 (n.log2 - 52)
  let kept := n / unit
  let lost := n % unit
  if 2 * lost < unit || (2 * lost == unit && kept % 2 == 0) then kept * unit
  else (kept + 1) * unit

/-- The first integer whose nearest double is infinite. -/
def limit : Nat := Nat.pow 2 1024 - Nat.pow 2 970

/-- Adds digits to a number as long as it stays in 64 bits, and returns what is left of them. -/
def absorb (n : Nat) : List Char → Nat × List Char
  | [] => (n, [])
  | c :: s =>
    let m := 10 * n + (c.toNat - '0'.toNat)
    if m < UInt64.size then absorb m s else (n, c :: s)

def isFinite (significand : Nat) (exponent : Int) : Bool :=
  if significand = 0 || exponent ≤ 0 then true
  else if 308 < exponent then false
  else nearest significand * nearest (Nat.pow 10 exponent.toNat) < limit

/-- Whether the number with these digits before and after its point, and this exponent, is finite.
Digits before the point that find no room still count as places, those after it are dropped. -/
def fits (whole fraction : List Char) (exponent : Int) : Bool :=
  let (n, places) := absorb 0 whole
  let (m, dropped) := absorb n fraction
  isFinite m (exponent + places.length - (fraction.length - dropped.length : Nat))

end Waymark.Json.Double
