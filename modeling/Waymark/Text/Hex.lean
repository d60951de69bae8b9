/-!
# Hexadecimal digits
-/

namespace Waymark.Text

def hex (n : Nat) : String := String.ofList (Nat.toDigits 16 n)

def hexDigit (c : Char) : Option Nat :=
  if c.isDigit then some (c.toNat - '0'.toNat)
  else if 'a' ≤ c ∧ c ≤ 'f' then some (c.toNat - 'a'.toNat + 10)
  else if 'A' ≤ c ∧ c ≤ 'F' then some (c.toNat - 'A'.toNat + 10)
  else none

end Waymark.Text
