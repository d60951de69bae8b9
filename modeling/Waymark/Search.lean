import Waymark.Snapshot.Recovery

/-!
# Searching by key and span

A search goes through a subtree in pre-order and looks for the node of a given key whose span is
nearest to a given one. How far its depth is off decides between nodes that are equally near. A
node that has a span of its own away from the wanted one is passed over with all that is below it;
spans of external nodes belong to another text and are not compared.
-/

namespace Waymark

structure Target where
  key : NodeKey
  span : Span
  /-- The expected number of hops below the start of the search. -/
  depth : Nat
  deriving DecidableEq, Repr

structure Score where
  distance : Nat
  depthError : Nat
  deriving DecidableEq, Repr

namespace Score

def exact : Score := ⟨0, 0⟩

def better (s t : Score) : Bool :=
  s.distance < t.distance || (s.distance == t.distance && s.depthError < t.depthError)

end Score

inductive Match (α : Type) where
  | none
  | best (n : α) (score : Score)
  /-- The best score is shared, and the search was strict. -/
  | ambiguous

def Match.node? {α : Type} : Match α → Option α
  | .best n _ => some n
  | .none | .ambiguous => Option.none

/-- The best node so far, and whether a later one has the same score. -/
structure Best (α : Type) where
  found : Option (α × Score) := none
  tied : Bool := false

namespace Best

variable {α : Type}

/-- Of nodes with the same score the first one stays. -/
def offer (b : Best α) (n : α) (score : Score) : Best α :=
  match b.found with
  | none => ⟨some (n, score), false⟩
  | some (_, top) =>
    if score = top then { b with tied := true }
    else if score.better top then ⟨some (n, score), false⟩
    else b

/-- Nothing can beat two exact matches. -/
def isSettled (b : Best α) : Bool :=
  match b.found with
  | some (_, top) => b.tied && top == .exact
  | none => false

def outcome (b : Best α) (strict : Bool) : Match α :=
  match b.found with
  | none => .none
  | some (n, score) => if b.tied && strict then .ambiguous else .best n score

end Best

namespace Op

variable {ν : Type} [DecidableEq ν]

def targetOf (f : Fingerprint) : Op ν Target := do
  let key ← match f.label, (← get).config.identify with
    | some label, .label => pure (.label label)
    | _, _ => do pure (.type (← internType f.type))
  return { key, span := f.span, depth := f.depth.toNat }

def targetAt (n : Node ν) (depth : Nat) : Op ν Target := do
  return { key := ← key n, span := ← span n, depth }

/-- Puts the children `0` to `count - 1` of `n` on top of the stack, asking for the last one first. -/
def pushChildren (n : Node ν) (depth : Nat) :
    Nat → List (Node ν × Nat) → Op ν (List (Node ν × Nat))
  | 0, stack => return stack
  | i + 1, stack => do
    let c ← child n i
    pushChildren n depth i ((c, depth) :: stack)

def isAway (target : Target) (n : Node ν) : Op ν Bool := do
  let raw ← rawSpan n
  if raw.isMeaningful && !raw.overlaps target.span then
    note (.pruned (← typeName n) raw)
    return true
  else return false

def consider (target : Target) (n : Node ν) (depth : Nat) (best : Best (Node ν)) :
    Op ν (Best (Node ν)) := do
  if (← key n) = target.key then
    let s ← span n
    let depthError := if depth ≤ target.depth then target.depth - depth else depth - target.depth
    return best.offer n ⟨s.distance target.span, depthError⟩
  else return best

def searchFrom (target : Target) (strict : Bool) (ignore : Option (Node ν)) :
    Nat → Nat → List (Node ν × Nat) → Best (Node ν) → Op ν (Match (Node ν))
  | _, _, [], best => return best.outcome strict
  | 0, _, _ :: _, _ => throw .endless
  | fuel + 1, visited, (n, depth) :: stack, best => do
    boundWalk (visited + 1) n
    if ignore = some n then searchFrom target strict ignore fuel (visited + 1) stack best
    else if ← isExternal n then
      let stack ← pushChildren n (depth + 1) (← childCount n) stack
      searchFrom target strict ignore fuel (visited + 1) stack best
    else if ← isAway target n then
      searchFrom target strict ignore fuel (visited + 1) stack best
    else
      let best ← consider target n depth best
      if strict && best.isSettled then return .ambiguous
      let stack ← pushChildren n (depth + 1) (← childCount n) stack
      searchFrom target strict ignore fuel (visited + 1) stack best

def bestMatch (start : Node ν) (target : Target) (strict : Bool)
    (ignore : Option (Node ν) := none) : Op ν (Match (Node ν)) := do
  searchFrom target strict ignore (← reach) 0 [(start, 0)] {}

def uniqueMatch (start : Node ν) (target : Target) (ignore : Option (Node ν) := none) :
    Op ν (Option (Node ν)) :=
  return (← bestMatch start target true ignore).node?

def isAmbiguous (start : Node ν) (f : Fingerprint) (ignore : Option (Node ν) := none) :
    Op ν Bool := do
  return (← uniqueMatch start (← targetOf f) ignore).isNone

end Op

end Waymark
