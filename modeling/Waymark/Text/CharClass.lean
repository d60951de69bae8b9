/-!
# Classes of characters

A class is given by ranges of code points, in increasing order and with gaps between them.
-/

namespace Waymark

structure CharClass where
  ranges : List (Nat × Nat)

def CharClass.has (k : CharClass) (c : Char) : Bool :=
  k.ranges.any fun r => r.1 ≤ c.toNat && c.toNat ≤ r.2

end Waymark
