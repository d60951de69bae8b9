import Waymark.Resolving

/-!
# The nodes at a position

All visible nodes whose span holds a position, the innermost first, each with its locator. Nodes
that cannot be located are reported instead.
-/

namespace Waymark

structure ListedNode (ν : Type) where
  type : String
  label : Option String
  span : Span
  locator : Locator
  node : Node ν

structure NodeListing (ν : Type) where
  nodes : List (ListedNode ν) := []
  diagnostics : List Diagnostic := []

namespace Op

variable {ν : Type} [DecidableEq ν]

/-- Whether the position can only be outside the node and all below it. -/
def isElsewhere (p : Position) (n : Node ν) : Op ν Bool := do
  let raw ← rawSpan n
  if raw.isMeaningful && !raw.contains p then return !(← isExternal n) else return false

def isHit (p : Position) (n : Node ν) : Op ν Bool := do
  if (← span n).contains p then isVisible n else return false

def hitsFrom (p : Position) : Nat → Nat → List (Node ν × Nat) → Op ν (List (Node ν × Nat))
  | _, _, [] => return []
  | 0, _, _ :: _ => throw .endless
  | fuel + 1, visited, (n, depth) :: stack => do
    boundWalk (visited + 1) n
    if ← isElsewhere p n then hitsFrom p fuel (visited + 1) stack
    else
      let hit ← isHit p n
      let stack ← pushChildren n (depth + 1) (← childCount n) stack
      let more ← hitsFrom p fuel (visited + 1) stack
      return if hit then (n, depth) :: more else more

/-- Deeper hits come first, and hits of one depth stay in their order. -/
def innermostFirst {α : Type} (hits : List (α × Nat)) : List (α × Nat) :=
  hits.mergeSort fun a b => b.2 ≤ a.2

def listed (n : Node ν) : Op ν (ListedNode ν ⊕ Diagnostic) := do
  let span ← span n
  match ← locate n with
  | some locator => return .inl { type := ← typeName n, label := ← label n, span, locator, node := n }
  | none =>
    note (.unlocatable (← typeName n) span)
    return .inr (.unlocatableNode span)

def nodesWithin (k : Nat) (p : Position) : Op ν (NodeListing ν) := do
  let hits ← hitsFrom p k 0 [((← get).root, 0)]
  let entries ← (innermostFirst hits).mapM fun h => listed h.1
  return { nodes := entries.filterMap Sum.getLeft?, diagnostics := entries.filterMap Sum.getRight? }

def nodesAt (p : Position) : Op ν (NodeListing ν) := do nodesWithin (← reach) p

end Op

end Waymark
