import Waymark.Route.Shortcut

/-!
# Locating a node

The locator of a node follows the route to it. Nodes among the arguments of a call are located in
the same way; if such nodes name each other in a circle, there is no end to it, and locating fails.
-/

namespace Waymark.Op

variable {ν : Type} [DecidableEq ν]

def locateAlong (n : Node ν) (hops : List (Hop (Node ν))) : Op ν (Option Locator) := do
  let result ← fingerprint n hops.length
  let steps ← shorten hops
  note (.located steps.length hops.length result)
  return some ⟨result, steps⟩

/-- The locator of a node, where `locate` is used for the nodes that arguments name. -/
def locateWith (locate : Node ν → Op ν (Option Locator)) (n : Node ν) : Op ν (Option Locator) := do
  match ← route locate n with
  | none => return none
  | some hops => locateAlong n hops

def locateWithin : Nat → Node ν → Op ν (Option Locator)
  | 0, _ => throw .endless
  | fuel + 1, n => locateWith (locateWithin fuel) n

def locate (n : Node ν) : Op ν (Option Locator) := do locateWithin (← reach) n

end Waymark.Op
