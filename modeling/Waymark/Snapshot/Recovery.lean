import Waymark.Snapshot

/-!
# Borrowed spans

A node without a place in the text borrows the span of a node near it: of an ancestor, of a
descendant by first children, or of whichever of the two is nearer.
-/

namespace Waymark.Op

variable {ν : Type} [DecidableEq ν]

def firstChild (n : Node ν) : Op ν (Option (Node ν)) := do
  if 0 < (← childCount n) then return some (← child n 0) else return none

def spanAbove : Nat → Node ν → Op ν Span
  | 0, _ => throw .endless
  | fuel + 1, n => do
    match ← parent n with
    | none => return .none
    | some p =>
      let span ← rawSpan p
      if span.isMeaningful then return span else spanAbove fuel p

/-- The span of the nearest first child, grandchild and so on that has one, after `visited` nodes. -/
def spanBelow : Nat → Nat → Node ν → Op ν Span
  | 0, _, _ => throw .endless
  | fuel + 1, visited, n => do
    match ← firstChild n with
    | none => return .none
    | some c =>
      boundWalk (visited + 1) c
      let span ← rawSpan c
      if span.isMeaningful then return span else spanBelow fuel (visited + 1) c

def stepUp : Option (Node ν) → Op ν (Option (Node ν) × Span)
  | none => return (none, .none)
  | some n => do
    match ← parent n with
    | none => return (none, .none)
    | some p => return (some p, ← rawSpan p)

def stepDown (visited : Nat) : Option (Node ν) → Op ν (Option (Node ν) × Span)
  | none => return (none, .none)
  | some n => do
    match ← firstChild n with
    | none => return (none, .none)
    | some c =>
      boundWalk (visited + 1) c
      return (some c, ← rawSpan c)

/-- The nearer of the two, where a step up comes before a step down. -/
def spanAround : Nat → Nat → Option (Node ν) → Option (Node ν) → Op ν Span
  | _, _, none, none => return .none
  | 0, _, _, _ => throw .endless
  | fuel + 1, visited, up, down => do
    let (up, span) ← stepUp up
    if span.isMeaningful then return span
    let (down, span) ← stepDown visited down
    if span.isMeaningful then return span
    spanAround fuel (visited + 1) up down

def borrowedSpan (strategy : Recovery) (n : Node ν) : Op ν Span := do
  let above : Op ν Span := do spanAbove (← reach) n
  let below : Op ν Span := do spanBelow (← reach) 1 n
  match strategy with
  | .fail => return .none
  | .parent => above
  | .child => below
  | .parentThenChild =>
    let span ← above
    if span.isMeaningful then return span else below
  | .childThenParent =>
    let span ← below
    if span.isMeaningful then return span else above
  | .alternate => spanAround (← reach) 1 (some n) (some n)

/-- The last borrowed span is remembered together with the strategy it came from. -/
def borrow (strategy : Recovery) (n : Node ν) : Op ν Span := do
  let span ← borrowedSpan strategy n
  note (.recovered span (← typeName n) strategy)
  update n fun s => { s with recovered := some (strategy, span) }
  return span

def spanWith (strategy : Recovery) (n : Node ν) : Op ν Span := do
  let raw ← rawSpan n
  if raw.isMeaningful then return raw
  match (← slot n).recovered with
  | some (s, span) => if s = strategy then return span else borrow strategy n
  | none => borrow strategy n

def span (n : Node ν) : Op ν Span := do spanWith (← get).config.recovery n

end Waymark.Op
