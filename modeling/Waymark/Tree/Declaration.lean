import Waymark.Tree

/-!
# Declared trees

A declaration nests nodes the way the text form does. Planting it numbers the nodes in the order of
the text. Arguments may refer to nodes by label, also to nodes declared later, so they are looked up
once all nodes are there.
-/

namespace Waymark

inductive Term where
  | string (s : String)
  | integer (i : Int64)
  | bool (b : Bool)
  | null
  | any
  | stream (name : String)
  | ref (label : String)
  | collection (items : List Term)

mutual

inductive Declaration where
  | node (head : TreeHead) (body : List Entry)

inductive Entry where
  | child (d : Declaration)
  /-- The result of a call, below a proxy or not. -/
  | derived (proxied : Bool) (name : String) (args : List Term) (d : Declaration)

end

/-- A tree whose derivations still wait for their arguments. -/
structure Sapling where
  tree : Tree
  /-- The arguments for each derivation, in the same order. -/
  pending : Array (List Term) := #[]

namespace Sapling

mutual

def plantBody (owner : Nat) : List Entry → Sapling → Sapling
  | [], s => s
  | e :: es, s => plantBody owner es (plantEntry owner e s)

def plantEntry (owner : Nat) : Entry → Sapling → Sapling
  | .child (.node head body), s =>
    plantBody s.tree.size body { s with tree := s.tree.addChild owner head }
  | .derived false name args (.node head body), s =>
    plantBody s.tree.size body
      { tree := s.tree.addDerived owner name [] head, pending := s.pending.push args }
  | .derived true name args (.node head body), s =>
    plantBody (s.tree.size + 1) body
      { tree := s.tree.addProxied owner name [] head, pending := s.pending.push args }

end

def ofDeclaration : Declaration → Sapling
  | .node head body => plantBody 0 body { tree := .ofRoot head }

end Sapling

mutual

def Term.value (t : Tree) : Term → Except String (Value Nat)
  | .string s => .ok (.string s)
  | .integer i => .ok (.integer i)
  | .bool b => .ok (.bool b)
  | .null => .ok (.node none)
  | .any => .ok .any
  | .stream name => .ok (.stream name)
  | .ref label =>
    match t.findLabel? label with
    | some n => .ok (.node (some n))
    | none => .error label
  | .collection items => return .collection (← Term.values t items)

def Term.values (t : Tree) : List Term → Except String (List (Value Nat))
  | [] => .ok []
  | a :: as => return (← a.value t) :: (← Term.values t as)

end

def Sapling.derivations (s : Sapling) : Except String (List Derivation) :=
  (s.tree.derived.toList.zip s.pending.toList).mapM fun (d, args) =>
    return { d with args := ← Term.values s.tree args }

def Declaration.plant (d : Declaration) : Except String Tree := do
  let s := Sapling.ofDeclaration d
  return { s.tree with derived := (← s.derivations).toArray }

end Waymark
