import Waymark.Host
import Waymark.Text.Quoted

/-!
# Trees in memory

A tree of typed nodes that are known by their index. A node may have a label, a span and flags.
Besides its children a node may have derived values, which are the results of calls on it. A derived
value may hang below a proxy, a node without children that stands between it and its owner.
-/

namespace Waymark

structure TreeHead where
  type : String
  label : Option String := none
  span : Option Span := none
  external : Bool := false
  visible : Option Bool := none
  deriving DecidableEq, Repr

structure TreeNode extends TreeHead where
  parent : Option Nat := none
  children : Array Nat := #[]
  deriving DecidableEq, Repr

/-- `node` is the result of the call `name args` on `owner`. -/
structure Derivation where
  owner : Nat
  name : String
  args : List (Value Nat)
  node : Nat
  deriving DecidableEq

structure Tree where
  nodes : Array TreeNode
  derived : Array Derivation := #[]
  searchRoot : Option String := none
  deriving DecidableEq

namespace Tree

/-! ## Building -/

def ofRoot (head : TreeHead) : Tree := { nodes := #[{ head with }] }

def size (t : Tree) : Nat := t.nodes.size

def update (t : Tree) (n : Nat) (f : TreeNode → TreeNode) : Tree :=
  { t with nodes := t.nodes.modify n f }

/-- Adds a node that nothing leads down to yet. Its index is the former size. -/
def push (t : Tree) (head : TreeHead) (parent : Nat) : Tree :=
  { t with nodes := t.nodes.push { head with parent := some parent } }

def addChild (t : Tree) (owner : Nat) (head : TreeHead) : Tree :=
  (t.push head owner).update owner fun n => { n with children := n.children.push t.size }

def addDerived (t : Tree) (owner : Nat) (name : String) (args : List (Value Nat))
    (head : TreeHead) : Tree :=
  let t' := t.push head owner
  { t' with derived := t'.derived.push { owner, name, args, node := t.size } }

def proxy : TreeHead := { type := "Proxy" }

/-- Adds a derived value below a proxy, which gets the index just before it. -/
def addProxied (t : Tree) (owner : Nat) (name : String) (args : List (Value Nat))
    (head : TreeHead) : Tree :=
  let t' := (t.push proxy owner).addDerived owner name args head
  t'.update (t.size + 1) fun n => { n with parent := some t.size }

/-! ## Changing -/

def setLabel (t : Tree) (n : Nat) (label : String) : Tree :=
  t.update n fun node => { node with label := some label }

def setExternal (t : Tree) (n : Nat) : Tree := t.update n fun node => { node with external := true }

def setVisible (t : Tree) (n : Nat) (visible : Bool) : Tree :=
  t.update n fun node => { node with visible := some visible }

def setSpan (t : Tree) (n : Nat) (span : Option Span) : Tree :=
  t.update n fun node => { node with span }

/-- Changes the parent alone. The former parent still lists the node as its child. -/
def setParent (t : Tree) (n : Nat) (parent : Option Nat) : Tree :=
  t.update n fun node => { node with parent }

def setSearchRoot (t : Tree) (type : String) : Tree := { t with searchRoot := some type }

/-! ## Looking up -/

def typeOf (t : Tree) (n : Nat) : String := (t.nodes[n]?.map (·.type)).getD "<missing>"

def indices (t : Tree) : List Nat := List.range t.size

def isDerived (t : Tree) (n : Nat) : Bool := t.derived.any fun d => d.node == n

def findAll (t : Tree) (type : String) : List Nat := t.indices.filter fun n => t.typeOf n == type

def find? (t : Tree) (type : String) : Option Nat := t.indices.find? fun n => t.typeOf n == type

def findLabel? (t : Tree) (label : String) : Option Nat :=
  t.nodes.findIdx? fun n => n.label == some label

/-- The types of a node's ancestors, the nearest first. Parents may go in a circle, which is left
after one turn too many. -/
def typesAbove (t : Tree) : Nat → Nat → List String
  | fuel, n =>
    match t.nodes[n]?.bind (·.parent) with
    | none => []
    | some p =>
      t.typeOf p :: match fuel with
        | 0 => ["..."]
        | fuel + 1 => t.typesAbove fuel p

def path (t : Tree) (n : Nat) : String :=
  String.intercalate "/" (t.typeOf n :: t.typesAbove t.size n).reverse

/-! ## Outlines -/

def indent (depth : Nat) : String := String.join (List.replicate depth "  ")

def headLine (h : TreeHead) : String :=
  h.type ++ (h.label.map fun l => "#" ++ l).getD "" ++ (h.span.map fun s => "@" ++ s.text).getD ""

def outlineFrom (t : Tree) : Nat → Nat → Nat → List String
  | 0, _, _ => []
  | fuel + 1, depth, n =>
    match t.nodes[n]? with
    | none => []
    | some node =>
      (indent depth ++ headLine node.toTreeHead) ::
        (node.children.toList.flatMap (t.outlineFrom fuel (depth + 1)) ++
          (t.derived.toList.filter fun d => d.owner == n).flatMap fun d =>
            (indent (depth + 1) ++ "." ++ d.name ++ "/" ++ toString d.args.length ++ " =") ::
              t.outlineFrom fuel (depth + 2) d.node)

/-- One line for each node and each derived value, indented by depth. -/
def outline (t : Tree) : String :=
  String.join ((t.outlineFrom (t.size + 1) 0 0).map (· ++ "\n"))

/-! ## As a host -/

mutual

def noteValue : Value Nat → String
  | .string s => "Str(" ++ Text.quoted s.toList ++ ")"
  | .integer i => "Int(" ++ toString i.toInt ++ ")"
  | .bool b => "Bool(" ++ (if b then "true" else "false") ++ ")"
  | .collection items => "Collection([" ++ String.intercalate ", " (noteValueList items) ++ "])"
  | .stream name => "OutputStream(" ++ Text.quoted name.toList ++ ")"
  | .node none => "Node(None)"
  | .node (some n) => "Node(Some(TestNode(" ++ toString n ++ ")))"
  | .any => "Any"

def noteValueList : List (Value Nat) → List String
  | [] => []
  | v :: vs => noteValue v :: noteValueList vs

end

def noteArgs (args : List (Value Nat)) : String :=
  "[" ++ String.intercalate ", " (noteValueList args) ++ "]"

def get (t : Tree) (n : Nat) : HostAnswer TreeNode :=
  match t.nodes[n]? with
  | some node => .ok node
  | none => .error ("no test node " ++ toString n)

def originOf (t : Tree) (p c : Nat) : Option (Origin Nat) :=
  (t.derived.find? fun d => d.owner == p && d.node == c).map fun d => ⟨d.name, d.args⟩

def resultOf (t : Tree) (n : Nat) (name : String) (args : List (Value Nat)) : Option Nat :=
  (t.derived.find? fun d => d.owner == n && d.name == name && d.args == args).map (·.node)

def mentions (t : Tree) : Nat :=
  t.nodes.foldl (fun n node => n + node.children.size + 2) 0 +
    t.derived.foldl (fun n d => n + (Value.nodesList d.args).length + 2) 0

theorem get_eq_ok {t : Tree} {n : Nat} {node : TreeNode} :
    t.get n = .ok node ↔ t.nodes[n]? = some node := by
  unfold get
  cases t.nodes[n]? <;> simp

def mentionedNodes (t : Tree) : List Nat :=
  (t.nodes.toList.flatMap fun node => node.children.toList ++ node.parent.toList) ++
    t.derived.toList.flatMap fun d => d.node :: Value.nodesList d.args

theorem length_mentionedNodes_le (t : Tree) : t.mentionedNodes.length ≤ t.mentions := by
  have hn := length_flatMap_le_foldl (f := fun node : TreeNode =>
    node.children.toList ++ node.parent.toList) (g := fun node => node.children.size + 2)
    (fun node => by cases node.parent <;> simp) t.nodes.toList 0
  have hd := length_flatMap_le_foldl (f := fun d : Derivation => d.node :: Value.nodesList d.args)
    (g := fun d => (Value.nodesList d.args).length + 2) (fun d => by simp) t.derived.toList 0
  simp only [mentionedNodes, mentions, List.length_append, ← Array.foldl_toList, ← Nat.add_assoc] at *
  omega

theorem mem_mentionedNodes_of_node {t : Tree} {n : Nat} {node : TreeNode} (h : t.nodes[n]? = some node)
    {m : Nat} (hm : m ∈ node.children.toList ++ node.parent.toList) : m ∈ t.mentionedNodes :=
  List.mem_append_left _ (List.mem_flatMap.2
    ⟨node, Array.mem_toList_iff.2 (Array.mem_of_getElem? h), hm⟩)

theorem mem_mentionedNodes_of_derived {t : Tree} {d : Derivation} (h : d ∈ t.derived)
    {m : Nat} (hm : m ∈ d.node :: Value.nodesList d.args) : m ∈ t.mentionedNodes :=
  List.mem_append_right _ (List.mem_flatMap.2 ⟨d, Array.mem_toList_iff.2 h, hm⟩)

def host (t : Tree) : Host Nat where
  size := t.mentions
  childCount n := return (← t.get n).children.size
  child n i := do
    match (← t.get n).children[i]? with
    | some c => return c
    | none => .error ("test node " ++ toString n ++ " has no child " ++ toString i)
  parent n := return (← t.get n).parent
  typeName := t.typeOf
  packedSpan n := t.nodes[n]?.bind (·.span)
  label n := t.nodes[n]?.bind (·.label)
  visible n := t.nodes[n]?.bind (·.visible)
  external n := (t.nodes[n]?.map (·.external)).getD false
  searchRoot := t.searchRoot
  origin p c := .ok (t.originOf p c)
  invoke n name args := do
    let _ ← t.get n
    return t.resultOf n name args
  missed := some noteArgs
  bounded := by
    refine ⟨t.mentionedNodes, t.length_mentionedNodes_le, fun m hm => ?_⟩
    cases hm with
    | @child v i c h =>
      cases hv : t.get v with
      | error e => simp [hv, bind, Except.bind] at h
      | ok node =>
        cases hc : node.children[i]? with
        | none => simp [hv, hc, bind, Except.bind] at h
        | some c =>
          simp only [hv, hc, bind, Except.bind, pure, Except.pure, Except.ok.injEq] at h
          subst h
          exact mem_mentionedNodes_of_node (get_eq_ok.1 hv)
            (List.mem_append_left _ (Array.mem_toList_iff.2 (Array.mem_of_getElem? hc)))
    | @parent v p h =>
      cases hv : t.get v with
      | error e => simp [hv, bind, Except.bind] at h
      | ok node =>
        simp only [hv, bind, Except.bind, pure, Except.pure, Except.ok.injEq] at h
        exact mem_mentionedNodes_of_node (get_eq_ok.1 hv)
          (List.mem_append_right _ (Option.mem_toList.2 h))
    | @argument p c o h _ hm =>
      simp only [Except.ok.injEq, originOf, Option.map_eq_some_iff] at h
      obtain ⟨d, hd, rfl⟩ := h
      exact mem_mentionedNodes_of_derived (Array.mem_of_find?_eq_some hd) (List.mem_cons_of_mem _ hm)
    | @result v name args c h =>
      cases hv : t.get v with
      | error e => simp [hv, bind, Except.bind] at h
      | ok node =>
        simp only [hv, bind, Except.bind, pure, Except.pure, Except.ok.injEq, resultOf,
          Option.map_eq_some_iff] at h
        obtain ⟨d, hd, rfl⟩ := h
        exact mem_mentionedNodes_of_derived (Array.mem_of_find?_eq_some hd) (List.mem_cons_self ..)

end Tree

end Waymark
