import Waymark.Route

/-!
# Shortcuts on a route

Not every hop of a route is needed to find its end again. Within a run of structural hops, a hop
that is the only best match in a search from further up makes the hops between superfluous. First
the deepest hop that is found from the start of the run takes the place of all hops before it. Then,
in each run of three or more findable hops, the way goes from hop to the farthest hop that is found
from it. A shortcut is taken only after a search has found exactly the node it leads to.
-/

namespace Waymark

/-- The hops from `first` on and before `stop` are left out, because hop `stop` is found directly. -/
structure Shortcut where
  first : Nat
  stop : Nat
  deriving DecidableEq, Repr

namespace Shortcut

def skips (c : Shortcut) (k : Nat) : Bool := c.first ≤ k && k < c.stop

/-- The longest runs of true flags, each as its first index and the one after its last. The flags
start at index `i`, and `start` is where a run that is still open began. -/
def runs : List Bool → Nat → Option Nat → List (Nat × Nat)
  | [], i, some a => [(a, i)]
  | [], _, none => []
  | true :: bs, i, some a => runs bs (i + 1) (some a)
  | true :: bs, i, none => runs bs (i + 1) (some i)
  | false :: bs, i, some a => (a, i) :: runs bs (i + 1) none
  | false :: bs, i, none => runs bs (i + 1) none

end Shortcut

namespace Op

variable {ν : Type} [DecidableEq ν]

def startOf (hops : List (Hop (Node ν))) : Nat → Op ν (Node ν)
  | 0 => return (← get).root
  | k + 1 => return (hops[k]?.map Hop.node).getD (← get).root

/-- Whether a search from `anchor` singles out `n`, expected `depth` hops below. -/
def isFoundFrom (anchor n : Node ν) (depth : Nat) : Op ν Bool := do
  return (← uniqueMatch anchor (← targetAt n depth)) = some n

/-! ## From the start of a run -/

/-- The first hop that may be left out. If the host names a type to start searches from, the hops
down to the first node of that type stay. -/
def afterSearchRoot (tag : TypeTag) : List (Hop (Node ν)) → Nat → Op ν Nat
  | [], _ => return 0
  | h :: hs, k => do
    if (← typeTag h.node) = tag then return k + 1 else afterSearchRoot tag hs (k + 1)

/-- Looks at the hops `start + left` down to `start + 1` for one that is found from `anchor`. -/
def shortcutFrom (hops : List (Hop (Node ν))) (anchor : Node ν) (start : Nat) :
    Nat → Op ν (Option Shortcut)
  | 0 => return none
  | left + 1 => do
    let j := start + left + 1
    if let some h := hops[j]? then
      if h.isFindable then
        if ← isFoundFrom anchor h.node (left + 2) then
          note (.rootShortened (left + 1) (← typeName h.node))
          return some ⟨start, j⟩
    shortcutFrom hops anchor start left

/-! ## Along findable hops -/

def farthest (hops : List (Hop (Node ν))) (anchor : Node ν) (current : Nat) : Nat → Op ν Nat
  | 0 | 1 => return current + 1
  | left + 2 => do
    let t := current + left + 2
    if let some h := hops[t]? then
      if ← isFoundFrom anchor h.node (left + 2) then return t
    farthest hops anchor current (left + 1)

def shortcutsAlong (hops : List (Hop (Node ν))) (last : Nat) : Nat → Nat → Op ν (List Shortcut)
  | 0, _ => return []
  | fuel + 1, current => do
    if last ≤ current then return []
    let next ← farthest hops (← startOf hops (current + 1)) current (last - current)
    if current + 1 < next then
      note (.runShortened (next - current - 1) current next)
      return ⟨current + 1, next⟩ :: (← shortcutsAlong hops last fuel next)
    else shortcutsAlong hops last fuel next

/-! ## The whole route -/

def shortcutsFrom (hops : List (Hop (Node ν))) (first stop : Nat) : Op ν (List Shortcut) := do
  if stop ≤ first then return []
  let top ← shortcutFrom hops (← startOf hops first) first (stop - 1 - first)
  let kept := (top.map Shortcut.stop).getD first
  let flags := ((hops.take stop).drop kept).map Hop.isFindable
  let long := (Shortcut.runs flags kept none).filter fun r => r.1 + 3 ≤ r.2
  let along ← long.mapM fun r => shortcutsAlong hops (r.2 - 1) (r.2 - 1 - r.1) r.1
  return top.toList ++ along.flatten

def shortcutsIn (hops : List (Hop (Node ν))) (start stop : Nat) : Op ν (List Shortcut) := do
  let first ← match start, (← get).searchRoot with
    | 0, some tag => afterSearchRoot tag (hops.take stop) 0
    | _, _ => pure start
  shortcutsFrom hops first stop

def shortcuts (hops : List (Hop (Node ν))) : Op ν (List Shortcut) := do
  let segments := Shortcut.runs (hops.map Hop.isStructural) 0 none
  return (← segments.mapM fun r => shortcutsIn hops r.1 r.2).flatten

def picture (n : Node ν) (depth : Nat) (span : Span) : Op ν Fingerprint := do
  let label ← match (← get).config.identify with
    | .label => label n
    | .type => pure none
  return { type := ← typeName n, label, span, depth := depth.toUInt32, external := ← isExternal n }

def fingerprint (n : Node ν) (depth : Nat) : Op ν Fingerprint := do picture n depth (← span n)

/-- The steps for the hops from number `k` on that no shortcut skips. The last kept hop before them
ended after `anchor` hops. -/
def stepsFrom (cuts : List Shortcut) : List (Hop (Node ν)) → Nat → Nat → Op ν (List Step)
  | [], _, _ => return []
  | h :: hs, k, anchor => do
    if cuts.any (·.skips k) then stepsFrom cuts hs (k + 1) anchor
    else
      let step ← match h with
        | .structural n _ true => do pure (.nearest (← fingerprint n (k + 1 - anchor)))
        | .structural _ index false => pure (.child index.toUInt64)
        | .derived _ call => pure (.derived call)
      return step :: (← stepsFrom cuts hs (k + 1) (k + 1))

def shorten (hops : List (Hop (Node ν))) : Op ν (List Step) := do
  stepsFrom (← shortcuts hops) hops 0 0

end Op

end Waymark
