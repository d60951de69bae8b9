import Waymark.Tree

/-!
# Edits

Changes to a tree as data, so that a list of them can be kept and carried out in order.
-/

namespace Waymark

inductive TreeEdit where
  | searchRoot (type : String)
  | label (n : Nat) (label : String)
  | external (n : Nat)
  | visible (n : Nat) (visible : Bool)
  | span (n : Nat) (span : Option Span)
  | parent (n : Nat) (parent : Option Nat)
  | addChild (owner : Nat) (head : TreeHead)
  | addDerived (owner : Nat) (name : String) (args : List (Value Nat)) (head : TreeHead)
  | addProxied (owner : Nat) (name : String) (args : List (Value Nat)) (head : TreeHead)

namespace Tree

def edit (t : Tree) : TreeEdit → Tree
  | .searchRoot type => t.setSearchRoot type
  | .label n label => t.setLabel n label
  | .external n => t.setExternal n
  | .visible n visible => t.setVisible n visible
  | .span n span => t.setSpan n span
  | .parent n parent => t.setParent n parent
  | .addChild owner head => t.addChild owner head
  | .addDerived owner name args head => t.addDerived owner name args head
  | .addProxied owner name args head => t.addProxied owner name args head

def editAll (t : Tree) (edits : List TreeEdit) : Tree := edits.foldl edit t

end Tree

end Waymark
