import Waymark.Search

/-!
# Routes

A route is the list of hops from the root down to a node. Each hop goes from a node to one of its
children, or to the result of a call on it.
-/

namespace Waymark

inductive Hop (α : Type) where
  /-- To the child at `index`. `findable` says that no sibling has the same key and span. -/
  | structural (node : α) (index : Nat) (findable : Bool)
  | derived (node : α) (call : Call)

namespace Hop

variable {α : Type}

def node : Hop α → α
  | .structural n _ _ => n
  | .derived n _ => n

def isStructural : Hop α → Bool
  | .structural .. => true
  | .derived .. => false

def isFindable : Hop α → Bool
  | .structural _ _ findable => findable
  | .derived .. => false

end Hop

namespace Op

variable {ν : Type} [DecidableEq ν]

/-! ## Arguments of calls -/

mutual

/-- An argument as a locator keeps it. Nodes are located by `locate`, and one that cannot be
located makes the argument impossible. -/
def encodeValue (locate : Node ν → Op ν (Option Locator)) : Value ν → Op ν (Option Arg)
  | .string s => return some (.string s)
  | .integer i => return some (.integer i)
  | .bool b => return some (.bool b)
  | .stream name => return some (.stream name)
  | .any => return some .any
  | .node none => return some (.node none)
  | .node (some v) => do
    match ← locate (← intern v) with
    | some l => return some (.node (some l))
    | none => return none
  | .collection items => return (← encodeValues locate items).map .collection

def encodeValues (locate : Node ν → Op ν (Option Locator)) :
    List (Value ν) → Op ν (Option (List Arg))
  | [] => return some []
  | v :: vs => do
    match ← encodeValue locate v with
    | none => return none
    | some a => return (← encodeValues locate vs).map (a :: ·)

end

def encodeCall (locate : Node ν → Op ν (Option Locator)) (o : Origin ν) : Op ν (Option Call) := do
  match ← encodeValues locate o.args with
  | some args => return some ⟨o.name, args⟩
  | none =>
    note (.argumentRefused o.name)
    return none

/-! ## Hops -/

def originOf (p n : Node ν) : Op ν (Option (Origin ν)) := do
  asked (.origin p.host n.host)
  answer ((← read).origin p.host n.host)

def indexFrom (p n : Node ν) : Nat → Nat → Op ν (Option Nat)
  | 0, _ => return none
  | left + 1, i => do
    if (← child p i) = n then return some i else indexFrom p n left (i + 1)

def hasTwin (n : Node ν) (k : NodeKey) (s : Span) : List (Node ν) → Op ν Bool
  | [] => return false
  | m :: ms => do
    if m = n then hasTwin n k s ms
    else if (← key m) = k then
      if (← span m) = s then return true else hasTwin n k s ms
    else hasTwin n k s ms

/-- A child can be found by key and span if it has a span in this text and no sibling shares both. -/
def isFindable (p n : Node ν) : Op ν Bool := do
  let s ← span n
  if !s.isMeaningful then return false
  if ← isExternal n then return false
  let k ← key n
  return !(← hasTwin n k s (← children p))

/-- The hop that ends at `n`, whose parent is `p`, and the node it starts from. A parent without
children may stand between a derived node and the node that derives it. -/
def hopTo (locate : Node ν → Op ν (Option Locator)) (p n : Node ν) :
    Op ν (Option (Hop (Node ν) × Node ν)) := do
  if let some o ← originOf p n then
    return (← encodeCall locate o).map fun call => (.derived n call, p)
  if (← childCount p) = 0 then
    if let some g ← parent p then
      if let some o ← originOf g n then
        return (← encodeCall locate o).map fun call => (.derived n call, g)
    note (.childlessParent (← typeName n) (← typeName p))
    return none
  match ← indexFrom p n (← childCount p) 0 with
  | some i => return some (.structural n i (← isFindable p n), p)
  | none =>
    note (.strayChild (← typeName n) (← typeName p))
    return none

def climb (locate : Node ν → Op ν (Option Locator)) :
    Nat → Node ν → List (Hop (Node ν)) → Op ν (Option (Node ν × List (Hop (Node ν))))
  | 0, _, _ => throw .endless
  | fuel + 1, n, below => do
    match ← parent n with
    | none => return some (n, below)
    | some p =>
      match ← hopTo locate p n with
      | none => return none
      | some (hop, up) => climb locate fuel up (hop :: below)

def route (locate : Node ν → Op ν (Option Locator)) (n : Node ν) :
    Op ν (Option (List (Hop (Node ν)))) := do
  match ← climb locate (← reach) n [] with
  | none => return none
  | some (top, hops) =>
    if top = (← get).root then return some hops
    note (.outsideTree (← typeName n))
    return none

end Op

end Waymark
