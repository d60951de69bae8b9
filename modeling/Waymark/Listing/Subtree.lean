import Waymark.Resolving

/-!
# The subtree below a node

The node that a locator leads to with all below it, down to a given number of levels. Below the
last level only the number of children is told.
-/

namespace Waymark

mutual

inductive ListedTree where
  | node (type : String) (label : Option String) (span : Span) (locator : Option Locator)
      (children : ListedChildren)

inductive ListedChildren where
  | all (trees : List ListedTree)
  | placeholder (count : Nat)

end

structure TreeListing where
  tree : Option ListedTree
  diagnostics : List Diagnostic

namespace Op

variable {ν : Type} [DecidableEq ν]

def listEach (list : Node ν → Option Locator → Op ν (ListedTree × List Diagnostic)) :
    List (Node ν) → Op ν (List ListedTree × List Diagnostic)
  | [] => return ([], [])
  | c :: cs => do
    let (t, ds) ← list c (← locate c)
    let (ts, es) ← listEach list cs
    return (t :: ts, ds ++ es)

def listBelow : Nat → Node ν → Option Locator → Op ν (ListedTree × List Diagnostic)
  | levels, n, locator => do
    let span ← span n
    let own := if locator.isNone then [.unlocatableNode span] else []
    let count ← childCount n
    let (below, more) ← match levels with
      | 0 => pure (.placeholder count, [])
      | levels + 1 => do
        let (trees, more) ← listEach (listBelow levels) (← children n)
        pure (.all trees, more)
    return (.node (← typeName n) (← label n) span locator below, own ++ more)

def subtree (l : Locator) (levels : Nat) : Op ν TreeListing := do
  match ← resolve l with
  | none => return { tree := none, diagnostics := [.noMatchingNode l.result.span] }
  | some r =>
    let (tree, diagnostics) ← listBelow levels r.node (some r.locator)
    return { tree := some tree, diagnostics }

end Op

end Waymark
