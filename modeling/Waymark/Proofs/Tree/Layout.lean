import Waymark.Proofs.Tree.Planting

/-!
# A planted tree, node by node

The nodes of a declaration in the order of the text, with the parents and children that they have in the
tree, and its calls in the same order. Planting adds one node after the other and makes changes to those
before; what comes out in the end is this layout.
-/

namespace Waymark

open View

/-! ## Counting -/

mutual

/-- How many nodes are declared. A proxy counts as one. -/
def Declaration.size : Declaration → Nat
  | .node _ body => 1 + Entry.sizeAll body

def Entry.size : Entry → Nat
  | .child d | .derived false _ _ d => d.size
  | .derived true _ _ d => 1 + d.size

def Entry.sizeAll : List Entry → Nat
  | [] => 0
  | e :: es => e.size + Entry.sizeAll es

end

theorem Declaration.size_pos : ∀ d : Declaration, 0 < d.size
  | .node _ body => by
    rw [Declaration.size]
    omega

def Entry.childrenOf (next : Nat) : List Entry → List Nat
  | [] => []
  | .child d :: es => next :: childrenOf (next + d.size) es
  | e :: es => childrenOf (next + e.size) es

/-! ## Nodes -/

mutual

def Declaration.nodesFrom (n : Nat) (parent : Option Nat) : Declaration → List TreeNode
  | .node head body =>
    { head with parent, children := (Entry.childrenOf (n + 1) body).toArray } :: Entry.nodesOf n (n + 1) body

def Entry.nodes (owner next : Nat) : Entry → List TreeNode
  | .child d | .derived false _ _ d => d.nodesFrom next (some owner)
  | .derived true _ _ d => { Tree.proxy with parent := some owner } :: d.nodesFrom (next + 1) (some next)

def Entry.nodesOf (owner next : Nat) : List Entry → List TreeNode
  | [] => []
  | e :: es => e.nodes owner next ++ Entry.nodesOf owner (next + e.size) es

end

def Declaration.nodes (d : Declaration) : List TreeNode := d.nodesFrom 0 none

/-! ## Calls -/

/-- `node` is the result of the call `name args` on `owner`, with the arguments as they are written. -/
structure Calling where
  owner : Nat
  name : String
  args : List Term
  node : Nat

mutual

def Declaration.callsFrom (n : Nat) : Declaration → List Calling
  | .node _ body => Entry.callsOf n (n + 1) body

def Entry.calls (owner next : Nat) : Entry → List Calling
  | .child d => d.callsFrom next
  | .derived false name args d => ⟨owner, name, args, next⟩ :: d.callsFrom next
  | .derived true name args d => ⟨owner, name, args, next + 1⟩ :: d.callsFrom (next + 1)

def Entry.callsOf (owner next : Nat) : List Entry → List Calling
  | [] => []
  | e :: es => e.calls owner next ++ Entry.callsOf owner (next + e.size) es

end

def Declaration.calls (d : Declaration) : List Calling := d.callsFrom 0

/-! ## Planting -/

mutual

theorem Declaration.length_nodesFrom (n : Nat) (parent : Option Nat) : ∀ d : Declaration,
    (d.nodesFrom n parent).length = d.size
  | .node head body => by
    rw [Declaration.nodesFrom, Declaration.size, List.length_cons, Entry.length_nodesOf, Nat.add_comm]

theorem Entry.length_nodes (owner next : Nat) : ∀ e : Entry, (e.nodes owner next).length = e.size
  | .child d | .derived false _ _ d => by
    rw [Entry.nodes, Entry.size, Declaration.length_nodesFrom]
  | .derived true _ _ d => by
    rw [Entry.nodes, Entry.size, List.length_cons, Declaration.length_nodesFrom, Nat.add_comm]

theorem Entry.length_nodesOf (owner next : Nat) : ∀ es : List Entry,
    (Entry.nodesOf owner next es).length = Entry.sizeAll es
  | [] => rfl
  | e :: es => by
    rw [Entry.nodesOf, Entry.sizeAll, List.length_append, Entry.length_nodes, Entry.length_nodesOf]

end

theorem Entry.childrenOf_cons (next : Nat) (e : Entry) (es : List Entry) :
    childrenOf next (e :: es) = childrenOf next [e] ++ childrenOf (next + e.size) es := by
  cases e with
  | child d => rfl
  | derived proxied name args d => rfl

namespace Sapling

def extend (s : Sapling) (owner : Nat) (children : List Nat) (nodes : List TreeNode)
    (calls : List Calling) : Sapling where
  tree := { s.tree with
    nodes := s.tree.nodes.modify owner (fun n => { n with children := n.children ++ children.toArray }) ++
      nodes.toArray
    derived := s.tree.derived ++ (calls.map fun c => ⟨c.owner, c.name, [], c.node⟩).toArray }
  pending := s.pending ++ (calls.map (·.args)).toArray

section
variable {α : Type} {a : Array α} {i : Nat} {f g : α → α} {x : α}

theorem modify_push (h : i < a.size) : (a.push x).modify i f = (a.modify i f).push x := by
  apply Array.ext_getElem?
  grind

theorem modify_push_size (h : i = a.size) : (a.push x).modify i f = a.push (f x) := by
  apply Array.ext_getElem?
  grind

theorem modify_append {b : Array α} (h : i < a.size) : (a ++ b).modify i f = a.modify i f ++ b := by
  apply Array.ext_getElem?
  grind

theorem modify_modify : (a.modify i f).modify i g = a.modify i (g ∘ f) := by
  apply Array.ext_getElem?
  grind

theorem modify_same : a.modify i (fun x => x) = a := by
  apply Array.ext_getElem?
  grind

end

theorem size_extend (s : Sapling) (owner : Nat) (children : List Nat) (nodes : List TreeNode)
    (calls : List Calling) : (s.extend owner children nodes calls).tree.size = s.tree.size + nodes.length := by
  simp [extend, Tree.size]

theorem extend_extend {s : Sapling} {owner : Nat} (h : owner < s.tree.size) (children children' : List Nat)
    (nodes nodes' : List TreeNode) (calls calls' : List Calling) :
    (s.extend owner children nodes calls).extend owner children' nodes' calls' =
      s.extend owner (children ++ children') (nodes ++ nodes') (calls ++ calls') := by
  have hlt : owner < (s.tree.nodes.modify owner fun n =>
      { n with children := n.children ++ children.toArray }).size := by
    rwa [Array.size_modify]
  simp only [extend, modify_append hlt, modify_modify, Function.comp_def, Array.append_assoc,
    List.append_toArray, List.map_append]

/-- A node that was just added, with its children and all below it. -/
theorem extend_addChild {s : Sapling} {owner : Nat} (h : owner < s.tree.size) (head : TreeHead)
    (children : List Nat) (nodes : List TreeNode) (calls : List Calling) :
    Sapling.extend { s with tree := s.tree.addChild owner head } s.tree.size children nodes calls =
      s.extend owner [s.tree.size]
        ({ head with parent := some owner, children := children.toArray } :: nodes) calls := by
  have hsize : s.tree.size = (s.tree.nodes.modify owner fun n =>
      { n with children := n.children.push s.tree.size }).size := by
    rw [Array.size_modify, Tree.size]
  simp only [extend, Tree.addChild, Tree.push, Tree.update, modify_push h, modify_push_size hsize]
  simp

theorem extend_addDerived (s : Sapling) (owner : Nat) (name : String) (args : List Term) (head : TreeHead)
    (children : List Nat) (nodes : List TreeNode) (calls : List Calling) :
    Sapling.extend { tree := s.tree.addDerived owner name [] head, pending := s.pending.push args } s.tree.size
        children nodes calls =
      s.extend owner [] ({ head with parent := some owner, children := children.toArray } :: nodes)
        (⟨owner, name, args, s.tree.size⟩ :: calls) := by
  simp only [extend, Tree.addDerived, Tree.push, Tree.size, modify_push_size rfl]
  simp [modify_same]

theorem extend_addProxied (s : Sapling) (owner : Nat) (name : String) (args : List Term) (head : TreeHead)
    (children : List Nat) (nodes : List TreeNode) (calls : List Calling) :
    Sapling.extend { tree := s.tree.addProxied owner name [] head, pending := s.pending.push args }
        (s.tree.size + 1) children nodes calls =
      s.extend owner [] ({ Tree.proxy with parent := some owner } ::
          { head with parent := some s.tree.size, children := children.toArray } :: nodes)
        (⟨owner, name, args, s.tree.size + 1⟩ :: calls) := by
  have hsize : ∀ x : TreeNode, s.tree.nodes.size + 1 = (s.tree.nodes.push x).size := fun x => by simp
  simp only [extend, Tree.addProxied, Tree.update, Tree.addDerived, Tree.push, Tree.size,
    modify_push_size (hsize _)]
  simp [modify_same]

mutual

theorem plantBody_eq {owner : Nat} : ∀ (body : List Entry) {s : Sapling}, owner < s.tree.size →
    plantBody owner body s = s.extend owner (Entry.childrenOf s.tree.size body)
      (Entry.nodesOf owner s.tree.size body) (Entry.callsOf owner s.tree.size body)
  | [], s, _ => by
    simp [plantBody, Entry.childrenOf, Entry.nodesOf, Entry.callsOf, extend, modify_same]
  | e :: es, s, h => by
    have hsize : (plantEntry owner e s).tree.size = s.tree.size + e.size := by
      rw [plantEntry_eq e h, size_extend, Entry.length_nodes]
    rw [plantBody, plantBody_eq es (by omega), hsize, plantEntry_eq e h, extend_extend h,
      Entry.childrenOf_cons _ e es, Entry.nodesOf, Entry.callsOf]

theorem plantEntry_eq {owner : Nat} : ∀ (e : Entry) {s : Sapling}, owner < s.tree.size →
    plantEntry owner e s = s.extend owner (Entry.childrenOf s.tree.size [e]) (e.nodes owner s.tree.size)
      (e.calls owner s.tree.size)
  | .child (.node head body), s, h => by
    have hsize : (s.tree.addChild owner head).size = s.tree.size + 1 := (Tree.gains_addChild h head).size
    rw [plantEntry, plantBody_eq body (by simp [hsize]), hsize, extend_addChild h]
    rfl
  | .derived false name args (.node head body), s, h => by
    have hsize : (s.tree.addDerived owner name [] head).size = s.tree.size + 1 :=
      (Tree.gains_addDerived s.tree owner name [] head).size
    rw [plantEntry, plantBody_eq body (by simp [hsize]), hsize, extend_addDerived]
    rfl
  | .derived true name args (.node head body), s, h => by
    have hsize : (s.tree.addProxied owner name [] head).size = s.tree.size + 2 := by
      rw [(Tree.gains_addProxied s.tree owner name [] head).size, (Tree.gains_push_proxy s.tree owner).size]
    rw [plantEntry, plantBody_eq body (by simp [hsize]), hsize, extend_addProxied]
    rfl

end

theorem ofDeclaration_eq (d : Declaration) : ofDeclaration d =
    { tree := { nodes := d.nodes.toArray,
                derived := (d.calls.map fun c => ⟨c.owner, c.name, [], c.node⟩).toArray },
      pending := (d.calls.map (·.args)).toArray } := by
  obtain ⟨head, body⟩ := d
  rw [ofDeclaration, plantBody_eq body (by simp [Tree.ofRoot, Tree.size])]
  simp [extend, Tree.ofRoot, Tree.size, Declaration.nodes, Declaration.nodesFrom, Declaration.calls,
    Declaration.callsFrom]

end Sapling

/-! ## Arguments -/

mutual

/-- The value of an argument, for a table that tells the first node with a label. -/
def Term.denote (first : String → Option Nat) : Term → Value Nat
  | .string s => .string s
  | .integer i => .integer i
  | .bool b => .bool b
  | .null => .node none
  | .any => .any
  | .stream name => .stream name
  | .ref label => .node (first label)
  | .collection items => .collection (Term.denoteAll first items)

def Term.denoteAll (first : String → Option Nat) : List Term → List (Value Nat)
  | [] => []
  | a :: as => a.denote first :: Term.denoteAll first as

end

mutual

def Term.refs : Term → List String
  | .ref label => [label]
  | .collection items => Term.refsAll items
  | .string _ | .integer _ | .bool _ | .null | .any | .stream _ => []

def Term.refsAll : List Term → List String
  | [] => []
  | a :: as => a.refs ++ Term.refsAll as

end

mutual

theorem Term.value_eq {t : Tree} : ∀ {a : Term}, (∀ l ∈ a.refs, t.findLabel? l ≠ none) →
    a.value t = .ok (a.denote t.findLabel?)
  | .string _, _ | .integer _, _ | .bool _, _ | .null, _ | .any, _ | .stream _, _ => by
    rw [Term.value, Term.denote]
  | .ref label, h => by
    rw [Term.value, Term.denote]
    cases hn : t.findLabel? label with
    | none => exact absurd hn (h label (by simp [Term.refs]))
    | some n => rfl
  | .collection items, h => by
    rw [Term.value, Term.denote, Term.values_eq h]
    rfl

theorem Term.values_eq {t : Tree} : ∀ {as : List Term}, (∀ l ∈ Term.refsAll as, t.findLabel? l ≠ none) →
    Term.values t as = .ok (Term.denoteAll t.findLabel? as)
  | [], _ => by rw [Term.values, Term.denoteAll]
  | a :: as, h => by
    rw [Term.values, Term.denoteAll, Term.value_eq fun l hl => h l (List.mem_append_left _ hl),
      Term.values_eq fun l hl => h l (List.mem_append_right _ hl)]
    rfl

end

namespace Declaration

def first (d : Declaration) (label : String) : Option Nat := d.nodes.findIdx? (·.label == some label)

def refs (d : Declaration) : List String := d.calls.flatMap fun c => Term.refsAll c.args

def tree (d : Declaration) : Tree where
  nodes := d.nodes.toArray
  derived := (d.calls.map fun c => ⟨c.owner, c.name, Term.denoteAll d.first c.args, c.node⟩).toArray

/-- Planting gives what is described, if all labels are there that are referred to. -/
theorem plant_eq {d : Declaration} (h : ∀ l ∈ d.refs, ∃ node ∈ d.nodes, node.label = some l) :
    d.plant = .ok d.tree := by
  have hfirst : ∀ l ∈ d.refs, d.first l ≠ none := by
    intro l hl hnone
    obtain ⟨node, hnode, hlabel⟩ := h l hl
    have hne := List.findIdx?_eq_none_iff.1 hnone node hnode
    simp [hlabel] at hne
  have hfind : Tree.findLabel? { nodes := d.nodes.toArray, derived := (d.calls.map fun c =>
      (⟨c.owner, c.name, [], c.node⟩ : Derivation)).toArray } = d.first := by
    funext l
    simp [Tree.findLabel?, first]
  have hderivations : (Sapling.ofDeclaration d).derivations = .ok (d.calls.map fun c =>
      ⟨c.owner, c.name, Term.denoteAll d.first c.args, c.node⟩) := by
    rw [Sapling.ofDeclaration_eq, Sapling.derivations, List.zip_map', List.mapM_map]
    apply mapM_eq
    intro c hc
    have hrefs : ∀ l ∈ Term.refsAll c.args, d.first l ≠ none :=
      fun l hl => hfirst l (List.mem_flatMap.2 ⟨c, hc, hl⟩)
    simp only [Function.comp_apply, Term.values_eq (hfind ▸ hrefs), hfind]
    rfl
  rw [plant, hderivations, Sapling.ofDeclaration_eq]
  rfl

end Declaration

end Waymark
