import Waymark.Diagnostic
import Waymark.Locating

/-!
# Following a locator

The steps of a locator are followed from the root. When one of them leads nowhere there is no
result. A node that is found is located anew, so that the answer fits the tree as it is now.
-/

namespace Waymark

/-- A node that a locator led to, with its span and its locator in the present tree. -/
structure Resolved (ν : Type) where
  node : Node ν
  span : Span
  locator : Locator

namespace Op

variable {ν : Type} [DecidableEq ν]

def invoke (n : Node ν) (name : String) (args : List (Value ν)) : Op ν (Option (Node ν)) := do
  asked (.invoke n.host name args.length)
  match ← answer ((← read).invoke n.host name args) with
  | some v => return some (← intern v)
  | none =>
    if let some text := (← read).missed then
      note (.derivedMissing (← typeName n) name (text args))
    return none

mutual

def follow (n : Node ν) : Step → Op ν (Option (Node ν))
  | .child index => do
    if index.toNat < (← childCount n) then return some (← child n index.toNat) else return none
  | .nearest f => do
    return (← bestMatch n (← targetOf f) false).node?
  | .derived ⟨name, args⟩ => do
    match ← decodeArgs args with
    | some values => invoke n name values
    | none => return none

def followAll (n : Node ν) : List Step → Op ν (Option (Node ν))
  | [] => return some n
  | s :: ss => do
    match ← follow n s with
    | some m => followAll m ss
    | none =>
      note (.stepUnmatched s (← typeName n))
      return none

def decodeArg : Arg → Op ν (Option (Value ν))
  | .string s => return some (.string s)
  | .integer i => return some (.integer i)
  | .bool b => return some (.bool b)
  | .stream name => return some (.stream name)
  | .any => return some .any
  | .node none => return some (.node none)
  | .node (some ⟨_, steps⟩) => do
    return (← followAll (← get).root steps).map fun n => .node (some n.host)
  | .collection items => return (← decodeArgs items).map .collection

def decodeArgs : List Arg → Op ν (Option (List (Value ν)))
  | [] => return some []
  | a :: as => do
    match ← decodeArg a with
    | some v => return (← decodeArgs as).map (v :: ·)
    | none => return none

end

def resolveSteps (steps : List Step) : Op ν (Option (Node ν)) := do
  followAll (← get).root steps

def resolve (l : Locator) : Op ν (Option (Resolved ν)) := do
  match ← resolveSteps l.steps with
  | none =>
    note (.locatorUnmatched l)
    return none
  | some node =>
    let span ← span node
    match ← locate node with
    | some locator => return some { node, span, locator }
    | none =>
      note (.notLocatedAgain (← typeName node))
      return some { node, span, locator := l }

/-- Follows a client's locator. That it leads nowhere is reported and no failure. -/
def resolveOrReport (l : Locator) : Op ν (Except Diagnostic (Resolved ν)) := do
  match ← resolve l with
  | some r => return .ok r
  | none => return .error (.noMatchingNode l.result.span)

end Op

end Waymark
