import Waymark.Host

/-!
# Hosts given by a table

A host whose answers are listed node by node. Nothing keeps the table from contradicting itself:
parents and children may disagree, counts may be wrong, and answers may fail on purpose.
-/

namespace Waymark

structure TableFailures where
  childCount : Option String := none
  child : Option String := none
  parent : Option String := none
  origin : Option String := none
  invoke : Option String := none

structure TableNode where
  type : String
  label : Option String := none
  span : Option Span := none
  lineColumns : Option LineColumns := none
  /-- Left out, the parent is the first node that lists this one as a child. -/
  parent : Option (Option Nat) := none
  children : List Nat := []
  /-- The number of children, where it is not the length of their list. -/
  count : Option Nat := none
  external : Bool := false
  visible : Option Bool := none
  failures : TableFailures := {}

/-- `node` comes from the call on `owner`, and the call gives `returns`, or `node` if left out. -/
structure TableDerivation where
  owner : Nat
  name : String
  args : List (Value Nat)
  node : Nat
  returns : Option (Option Nat) := none

structure HostTable where
  nodes : Array TableNode
  derived : List TableDerivation := []
  searchRoot : Option String := none
  unsupported : List (String × Hook) := []

namespace HostTable

def get (t : HostTable) (n : Nat) (failure : TableFailures → Option String) :
    HostAnswer TableNode :=
  match t.nodes[n]? with
  | none => .error ("no node " ++ toString n)
  | some node =>
    match failure node.failures with
    | some message => .error message
    | none => .ok node

def parentOf (t : HostTable) (n : Nat) (node : TableNode) : Option Nat :=
  node.parent.getD (t.nodes.findIdx? fun p => p.children.contains n)

def mentions (t : HostTable) : Nat :=
  t.nodes.foldl (fun n node => n + node.children.length + 2) 0 +
    t.derived.foldl (fun n d => n + (Value.nodesList d.args).length + 3) 0

/-! ## Answers -/

def answerChild (t : HostTable) (n i : Nat) : HostAnswer Nat := do
  match (← t.get n (·.child)).children[i]? with
  | some c => return c
  | none => .error ("node " ++ toString n ++ " has no child " ++ toString i)

def answerParent (t : HostTable) (n : Nat) : HostAnswer (Option Nat) :=
  return t.parentOf n (← t.get n (·.parent))

def answerOrigin (t : HostTable) (p c : Nat) : HostAnswer (Option (Origin Nat)) := do
  let _ ← t.get p (·.origin)
  return (t.derived.find? fun d => d.owner == p && d.node == c).map fun d => ⟨d.name, d.args⟩

def answerInvoke (t : HostTable) (n : Nat) (name : String) (args : List (Value Nat)) :
    HostAnswer (Option Nat) := do
  let _ ← t.get n (·.invoke)
  return (t.derived.find? fun d => d.owner == n && d.name == name && d.args == args).bind
    fun d => d.returns.getD (some d.node)

/-! ### No more nodes than mentions -/

def mentionedNodes (t : HostTable) : List Nat :=
  List.range t.nodes.size ++
    (t.nodes.toList.flatMap fun node => node.children ++ node.parent.join.toList) ++
    t.derived.flatMap fun d => d.node :: d.returns.join.toList ++ Value.nodesList d.args

theorem length_mentionedNodes_le (t : HostTable) : t.mentionedNodes.length ≤ t.mentions := by
  have hn := length_flatMap_le_foldl (f := fun node : TableNode =>
    0 :: (node.children ++ node.parent.join.toList)) (g := fun node => node.children.length + 2)
    (fun node => by cases node.parent.join <;> simp) t.nodes.toList 0
  have hd := length_flatMap_le_foldl (f := fun d : TableDerivation =>
    d.node :: d.returns.join.toList ++ Value.nodesList d.args)
    (g := fun d => (Value.nodesList d.args).length + 3)
    (fun d => by cases d.returns.join <;> simp) t.derived 0
  have hs : ∀ ns : List TableNode,
      (ns.flatMap fun node => 0 :: (node.children ++ node.parent.join.toList)).length =
        ns.length + (ns.flatMap fun node => node.children ++ node.parent.join.toList).length := by
    intro ns
    induction ns with
    | nil => rfl
    | cons n ns ih => simp only [List.flatMap_cons, List.length_append, List.length_cons, ih]; omega
  simp only [mentionedNodes, mentions, List.length_append, List.length_range, ← Array.foldl_toList,
    ← Nat.add_assoc, hs, Array.length_toList] at *
  omega

theorem get_eq_ok {t : HostTable} {n : Nat} {failure : TableFailures → Option String}
    {node : TableNode} (h : t.get n failure = .ok node) : t.nodes[n]? = some node := by
  unfold get at h
  split at h
  · cases h
  · split at h
    · cases h
    · cases h; assumption

theorem mem_mentionedNodes_of_node {t : HostTable} {n : Nat} {node : TableNode}
    (h : t.nodes[n]? = some node) {m : Nat} (hm : m ∈ node.children ++ node.parent.join.toList) :
    m ∈ t.mentionedNodes :=
  List.mem_append_left _ (List.mem_append_right _ (List.mem_flatMap.2
    ⟨node, Array.mem_toList_iff.2 (Array.mem_of_getElem? h), hm⟩))

theorem mem_mentionedNodes_of_derived {t : HostTable} {d : TableDerivation} (h : d ∈ t.derived)
    {m : Nat} (hm : m ∈ d.node :: d.returns.join.toList ++ Value.nodesList d.args) :
    m ∈ t.mentionedNodes :=
  List.mem_append_right _ (List.mem_flatMap.2 ⟨d, h, hm⟩)

theorem mem_of_answerChild {t : HostTable} {n i c : Nat} (h : t.answerChild n i = .ok c) :
    c ∈ t.mentionedNodes := by
  unfold answerChild at h
  cases hn : t.get n (·.child) with
  | error e => simp [hn, bind, Except.bind] at h
  | ok node =>
    cases hc : node.children[i]? with
    | none => simp [hn, hc, bind, Except.bind] at h
    | some c =>
      simp only [hn, hc, bind, Except.bind, pure, Except.pure, Except.ok.injEq] at h
      subst h
      exact mem_mentionedNodes_of_node (get_eq_ok hn)
        (List.mem_append_left _ (List.mem_of_getElem? hc))

theorem mem_of_answerParent {t : HostTable} {n p : Nat} (h : t.answerParent n = .ok (some p)) :
    p ∈ t.mentionedNodes := by
  unfold answerParent at h
  cases hn : t.get n (·.parent) with
  | error e => simp [hn, bind, Except.bind] at h
  | ok node =>
    simp only [hn, bind, Except.bind, pure, Except.pure, Except.ok.injEq, parentOf] at h
    cases hp : node.parent with
    | some q =>
      refine mem_mentionedNodes_of_node (get_eq_ok hn) (List.mem_append_right _ ?_)
      simpa [hp] using h
    | none =>
      -- The parent is then a place in the table.
      simp only [hp, Option.getD_none, Array.findIdx?_eq_some_iff_getElem] at h
      obtain ⟨hlt, -⟩ := h
      exact List.mem_append_left _ (List.mem_append_left _ (List.mem_range.2 hlt))

theorem mem_of_answerOrigin {t : HostTable} {p c : Nat} {o : Origin Nat}
    (h : t.answerOrigin p c = .ok (some o)) {m : Nat} (hm : m ∈ Value.nodesList o.args) :
    m ∈ t.mentionedNodes := by
  unfold answerOrigin at h
  cases hp : t.get p (·.origin) with
  | error e => simp [hp, bind, Except.bind] at h
  | ok node =>
    simp only [hp, bind, Except.bind, pure, Except.pure, Except.ok.injEq,
      Option.map_eq_some_iff] at h
    obtain ⟨d, hd, rfl⟩ := h
    exact mem_mentionedNodes_of_derived (List.mem_of_find?_eq_some hd) (List.mem_append_right _ hm)

theorem mem_of_answerInvoke {t : HostTable} {n c : Nat} {name : String} {args : List (Value Nat)}
    (h : t.answerInvoke n name args = .ok (some c)) : c ∈ t.mentionedNodes := by
  unfold answerInvoke at h
  cases hn : t.get n (·.invoke) with
  | error e => simp [hn, bind, Except.bind] at h
  | ok node =>
    simp only [hn, bind, Except.bind, pure, Except.pure, Except.ok.injEq,
      Option.bind_eq_some_iff] at h
    obtain ⟨d, hd, hc⟩ := h
    refine mem_mentionedNodes_of_derived (List.mem_of_find?_eq_some hd) (List.mem_append_left _ ?_)
    cases hr : d.returns with
    | none => simp_all
    | some r => simp_all

/-! ## Hosts -/

/-- A host that answers the questions about structure only. -/
def bareHost (t : HostTable) : Host Nat where
  size := t.mentions
  childCount n := do
    let node ← t.get n (·.childCount)
    return node.count.getD node.children.length
  child := t.answerChild
  parent := t.answerParent
  typeName n := (t.nodes[n]?.map (·.type)).getD "?"
  bounded := by
    refine ⟨t.mentionedNodes, t.length_mentionedNodes_le, fun m hm => ?_⟩
    cases hm with
    | child h => exact mem_of_answerChild h
    | parent h => exact mem_of_answerParent h
    | argument h _ => cases h
    | result h => cases h

def host (t : HostTable) : Host Nat :=
  { t.bareHost with
    packedSpan := fun n => t.nodes[n]?.bind (·.span)
    lineColumns := fun n => t.nodes[n]?.bind (·.lineColumns)
    label := fun n => t.nodes[n]?.bind (·.label)
    visible := fun n => t.nodes[n]?.bind (·.visible)
    external := fun n => (t.nodes[n]?.map (·.external)).getD false
    searchRoot := t.searchRoot
    supports := fun type hook => !t.unsupported.contains (type, hook)
    origin := t.answerOrigin
    invoke := t.answerInvoke
    bounded := by
      refine ⟨t.mentionedNodes, t.length_mentionedNodes_le, fun m hm => ?_⟩
      cases hm with
      | child h => exact mem_of_answerChild h
      | parent h => exact mem_of_answerParent h
      | argument h hm => exact mem_of_answerOrigin h hm
      | result h => exact mem_of_answerInvoke h }

end HostTable

end Waymark
