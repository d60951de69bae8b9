import Waymark.Proofs.Tree.Planting
import Waymark.Proofs.View.Told
import Waymark.Tree.Reader

/-!
# Which nodes of a planted tree have locators

All of them but the proxies: each other node is a child of its owner, or the result of a call on it, and
the owner is no proxy either. It is only asked that no node needs its own locator for an argument on the
way to it.
-/

namespace Waymark

open Relation Op Snapshot View

namespace Tree

/-! ## What the host tells -/

section
variable {t : Tree} {v p c i : Nat} {node : TreeNode}

theorem childCount_host (h : t.nodes[v]? = some node) :
    t.host.childCount v = .ok node.children.size := by
  simp only [host, get_eq_ok.2 h]
  rfl

theorem parent_host (h : t.nodes[v]? = some node) : t.host.parent v = .ok node.parent := by
  simp only [host, get_eq_ok.2 h]
  rfl

theorem child_host (h : t.nodes[v]? = some node) (hc : node.children[i]? = some c) :
    t.host.child v i = .ok c := by
  simp only [host, get_eq_ok.2 h, hc, bind, Except.bind]
  rfl

theorem get_of_childCount {count : Nat} (h : t.host.childCount v = .ok count) :
    ∃ node, t.nodes[v]? = some node ∧ node.children.size = count := by
  simp only [host, bind_eq_ok, pure_eq_ok, get_eq_ok] at h
  exact h

theorem hasParent_iff : t.host.HasParent v p ↔ ∃ node, t.nodes[v]? = some node ∧ node.parent = some p := by
  simp only [Host.HasParent, host, bind_eq_ok, pure_eq_ok, get_eq_ok]

theorem lists_iff : t.host.Lists p i c ↔
    ∃ node, t.nodes[p]? = some node ∧ node.children[i]? = some c := by
  constructor
  · rintro ⟨count, hcount, hi, hc⟩
    obtain ⟨node, hnode, rfl⟩ := get_of_childCount hcount
    have hget := Array.getElem?_eq_getElem hi
    rw [child_host hnode hget] at hc
    exact ⟨node, hnode, hget.trans (congrArg some (Except.ok.inj hc))⟩
  · rintro ⟨node, hnode, hc⟩
    exact ⟨_, childCount_host hnode, (Array.getElem?_eq_some_iff.1 hc).1, child_host hnode hc⟩

theorem origin_none_iff : t.host.origin p v = .ok none ↔ ¬ t.Derives p v := by
  simp [host, originOf, Derives]

theorem derives_of_origin {o : Origin Nat} (h : t.host.origin p v = .ok (some o)) :
    ∃ d ∈ t.derived, d.owner = p ∧ d.node = v ∧ d.args = o.args := by
  simp only [host, originOf, Except.ok.injEq, Option.map_eq_some_iff] at h
  obtain ⟨d, hd, rfl⟩ := h
  have hends := Array.find?_some hd
  simp only [Bool.and_eq_true, beq_iff_eq] at hends
  exact ⟨d, Array.mem_of_find?_eq_some hd, hends.1, hends.2, rfl⟩

/-- A node that is needed is an argument of a call that gives the node itself or one above it. -/
theorem derives_of_needs {m : Nat} (h : t.host.Needs v m) :
    ∃ d ∈ t.derived, ReflTransGen t.host.HasParent v d.node ∧ m ∈ Value.nodesList d.args := by
  obtain ⟨u, x, o, hu, hx, hm⟩ := h
  have hup : ReflTransGen t.host.HasParent v u := by
    clear hx
    induction hu with
    | refl => exact .refl
    | tail _ he ih => exact ih.trans he.choose_spec.parents.to_reflTransGen
  have hcall : ∀ q, t.host.origin q u = .ok (some o) →
      ∃ d ∈ t.derived, ReflTransGen t.host.HasParent v d.node ∧ m ∈ Value.nodesList d.args := by
    intro q ho
    obtain ⟨d, hd, -, rfl, hargs⟩ := derives_of_origin ho
    exact ⟨d, hd, hup, hargs ▸ hm⟩
  cases hx with
  | call _ ho => exact hcall _ ho
  | proxy _ _ _ _ ho => exact hcall _ ho

theorem exists_origin (h : t.Derives p v) : ∃ o, t.host.origin p v = .ok (some o) := by
  cases ho : t.originOf p v with
  | none => exact absurd h (origin_none_iff.1 (congrArg Except.ok ho))
  | some o => exact ⟨o, congrArg Except.ok ho⟩

end

/-! ## By the seats -/

section
variable {t : Tree} {seats : List Seat} (h : t.Planted seats) {v p c : Nat} {seat : Seat}
include h

theorem Planted.lt (hv : seats[v]? = some seat) : v < t.size :=
  h.size ▸ (List.getElem?_eq_some_iff.1 hv).1

theorem Planted.exists_node (hv : v < t.size) :
    ∃ node seat, t.nodes[v]? = some node ∧ seats[v]? = some seat := by
  have hlt : v < seats.length := h.size ▸ hv
  exact ⟨_, _, Array.getElem?_eq_getElem hv, List.getElem?_eq_getElem hlt⟩

theorem Planted.parent_eq (hv : seats[v]? = some seat) : t.host.parent v = .ok (seat.parent? v) := by
  obtain ⟨node, seat', hnode, hseat⟩ := h.exists_node (h.lt hv)
  rw [parent_host hnode, (h.sits v node hnode).parent seat hv]

theorem Planted.hasParent (hp : t.host.HasParent v p) :
    ∃ seat, seats[v]? = some seat ∧ seat.parent? v = some p := by
  obtain ⟨node, hnode, hparent⟩ := hasParent_iff.1 hp
  obtain ⟨_, seat, -, hseat⟩ := h.exists_node (Array.getElem?_eq_some_iff.1 hnode).1
  exact ⟨seat, hseat, by rw [← (h.sits v node hnode).parent seat hseat, hparent]⟩

theorem Planted.isChild_iff : t.host.IsChild p c ↔ seats[c]? = some (.child p) := by
  constructor
  · rintro ⟨i, hi⟩
    obtain ⟨node, hnode, hc⟩ := lists_iff.1 hi
    exact ((h.sits p node hnode).children c).1 (Array.mem_of_getElem? hc)
  · intro hc
    have howner := (h.arranged.owner c _ p hc rfl).2
    obtain ⟨node, _, hnode, -⟩ := h.exists_node (h.size ▸ howner.lt)
    obtain ⟨i, hi⟩ := Array.mem_iff_getElem?.1 (((h.sits p node hnode).children c).2 hc)
    exact ⟨i, lists_iff.2 ⟨node, hnode, hi⟩⟩

theorem Planted.parent_lt (hp : t.host.HasParent v p) : p < v := by
  obtain ⟨seat, hseat, hparent⟩ := h.hasParent hp
  cases seat with
  | top => cases hparent
  | child o | derived o | proxy o =>
    cases hparent
    exact (h.arranged.owner v _ p hseat rfl).1
  | proxied o =>
    obtain ⟨j, rfl, -⟩ := h.arranged.proxied v o hseat
    cases hparent
    exact Nat.lt_succ_self _

theorem Planted.grown : t.host.Grown (· < t.size) where
  childCount v hv := ⟨_, childCount_host (Array.getElem?_eq_getElem hv)⟩
  child v count i hv hcount hi := by
    obtain ⟨node, hnode, rfl⟩ := get_of_childCount hcount
    exact ⟨_, child_host hnode (Array.getElem?_eq_getElem hi)⟩
  parent v hv := ⟨_, parent_host (Array.getElem?_eq_getElem hv)⟩
  down v i c _ hc := h.lt (h.isChild_iff.1 ⟨i, hc⟩)
  up v p hv hp := Nat.lt_trans (h.parent_lt hp) hv
  parent_child p c _ hc := h.parent_eq (h.isChild_iff.1 hc)
  once p i j c _ hi hj := by
    obtain ⟨node, hnode, hi⟩ := lists_iff.1 hi
    obtain ⟨_, hnode', hj⟩ := lists_iff.1 hj
    obtain rfl := Option.some.inj (hnode.symm.trans hnode')
    rw [← Array.getElem?_toList] at hi hj
    obtain ⟨hlt, -⟩ := List.getElem?_eq_some_iff.1 hi
    exact (List.getElem?_inj hlt (h.sits p node hnode).nodup).1 (hi.trans hj.symm)
  circle v _ := not_circle_of_lt id (fun _ _ => h.parent_lt) v

theorem Planted.origin_spec {o : Origin Nat} (ho : t.host.origin p v = .ok (some o)) :
    (∃ seat, seats[v]? = some seat ∧ seat.caller? = some p) ∧
      ∀ m ∈ Value.nodesList o.args, Seat.Proper seats m := by
  obtain ⟨d, hd, howner, hnode, hargs⟩ := derives_of_origin ho
  exact ⟨(h.derives p v).1 ⟨d, hd, howner, hnode⟩, hargs ▸ h.arguments d hd⟩

theorem Planted.closed : t.host.Closed (· < t.size) where
  child := h.grown.down
  parent := h.grown.up
  origin p v o _ _ ho m hm := h.size ▸ ((h.origin_spec ho).2 m hm).lt
  invoke v name args c _ _ hc := by
    simp only [host, bind_eq_ok, pure_eq_ok, resultOf, Option.map_eq_some_iff] at hc
    obtain ⟨_, -, d, hd, rfl⟩ := hc
    obtain ⟨seat, hseat, -⟩ := (h.derives d.owner d.node).1 ⟨d, Array.mem_of_find?_eq_some hd, rfl, rfl⟩
    exact h.lt hseat

theorem Planted.rootedForest (hneeds : ∀ v, ¬ TransGen t.host.Needs v v) : t.host.RootedForest 0 (· < t.size) where
  grown := h.grown
  closed := h.closed
  isNode_root := h.lt ((h.arranged.top 0).2 rfl)
  arguments v _ := by
    obtain ⟨nodes, hlen, hmem⟩ := t.host.bounded
    refine acc_of_not_circle nodes.length nodes (Nat.le_refl _) (fun m hm => ?_) fun m _ => hneeds m
    obtain ⟨u, -, _, _, o, -, he, harg⟩ := TransGen.tail'_iff.1 hm
    obtain ⟨p, w, o, ho, harg⟩ := isArgument_of_enters he harg
    exact hmem m (.argument ho harg)

/-! ## Ways in -/

theorem Planted.proper_of_derives (hd : t.Derives p v) : Seat.Proper seats p := by
  obtain ⟨seat, hseat, hcaller⟩ := (h.derives p v).1 hd
  exact (h.arranged.owner v seat p hseat (Seat.owner?_of_caller? hcaller)).2

theorem Planted.proper_of_isChild (hc : t.host.IsChild p c) : Seat.Proper seats p :=
  (h.arranged.owner c _ p (h.isChild_iff.1 hc) rfl).2

theorem Planted.childCount_proxy {owner : Nat} (hv : seats[v]? = some (.proxy owner)) :
    t.host.childCount v = .ok 0 := by
  obtain ⟨node, _, hnode, -⟩ := h.exists_node (h.lt hv)
  rw [childCount_host hnode]
  by_contra hne
  have hpos : 0 < node.children.size := Nat.pos_of_ne_zero fun hzero => hne (by rw [hzero])
  have hchild : t.host.IsChild v node.children[0] :=
    ⟨0, lists_iff.2 ⟨node, hnode, Array.getElem?_eq_getElem hpos⟩⟩
  exact Seat.not_proper_proxy hv (h.proper_of_isChild hchild)

theorem Planted.entered : t.host.Entered 0 (Seat.Proper seats) where
  top v hv hp := by
    obtain ⟨seat, hseat, -⟩ := hv
    rw [h.parent_eq hseat] at hp
    cases seat with
    | top => exact (h.arranged.top v).1 hseat
    | child o | derived o | proxy o | proxied o => cases hp
  enters v p hv hp := by
    obtain ⟨seat, hseat, hproper⟩ := hv
    have hderives : ∀ q, t.Derives q v ↔ seat.caller? = some q := by
      intro q
      rw [h.derives, hseat]
      simp
    have hparent := h.parent_eq hseat
    rw [hp] at hparent
    cases seat with
    | top => cases hparent
    | proxy o => cases hproper
    | child o =>
      cases hparent
      have hno : ¬ t.Derives p v := by simp [hderives, Seat.caller?]
      exact ⟨p, none, .child hp (origin_none_iff.2 hno) (h.isChild_iff.2 hseat)⟩
    | derived o =>
      cases hparent
      obtain ⟨c, hc⟩ := exists_origin ((hderives p).2 rfl)
      exact ⟨p, some c, .call hp hc⟩
    | proxied o =>
      -- The proxy owns nothing, so it has neither children nor calls.
      obtain ⟨j, rfl, hj⟩ := h.arranged.proxied v o hseat
      cases hparent
      obtain ⟨c, hc⟩ := exists_origin ((hderives o).2 rfl)
      have hno : ¬ t.Derives j (j + 1) := fun hd => Seat.not_proper_proxy hj (h.proper_of_derives hd)
      exact ⟨o, some c, .proxy hp (origin_none_iff.2 hno) (h.childCount_proxy hj) (h.parent_eq hj) hc⟩
  source v u o hv he := by
    have hcall : ∀ q c, t.host.origin q v = .ok (some c) → Seat.Proper seats q := by
      intro q c hc
      obtain ⟨d, hd, howner, hnode, -⟩ := derives_of_origin hc
      exact h.proper_of_derives ⟨d, hd, howner, hnode⟩
    cases he with
    | call _ ho => exact hcall _ _ ho
    | proxy _ _ _ _ ho => exact hcall _ _ ho
    | child _ _ hc => exact h.proper_of_isChild hc
  arguments v u o _ he := by
    cases he with
    | call _ ho => exact (h.origin_spec ho).2
    | proxy _ _ _ _ ho => exact (h.origin_spec ho).2

/-- Nothing leads to a proxy: it is no child, and no call gives it. -/
theorem Planted.not_enters_proxy {owner : Nat} (hv : seats[v]? = some (.proxy owner)) (u : Nat)
    (o : Option (Origin Nat)) : ¬ t.host.Enters v u o := by
  have hcall : ∀ q c, t.host.origin q v ≠ .ok (some c) := by
    intro q c hc
    obtain ⟨seat, hseat, hcaller⟩ := (h.origin_spec hc).1
    obtain rfl := Option.some.inj (hv.symm.trans hseat)
    cases hcaller
  intro he
  cases he with
  | call _ ho => exact hcall _ _ ho
  | proxy _ _ _ _ ho => exact hcall _ _ ho
  | child _ _ hc =>
    rw [h.isChild_iff, hv] at hc
    cases hc

end

end Tree

/-! ## Locators -/

namespace Snapshot

/-- Of the nodes of a tree that was read from a text, all but the proxies have locators. Locating a proxy
is no fault: it just has none. -/
theorem History.locate_unless_proxy {text : String} {d : Declaration} {t : Tree}
    (hd : TreeReader.whole text.toList = .ok d) (ht : Tree.ofText text = .ok t)
    (hneeds : ∀ v, ¬ TransGen t.host.Needs v v) {s : Snapshot Nat} (h : s.History t.host 0)
    {n : Node Nat} (hn : s.Knows n) (hlt : n.host < t.size) :
    (d.IsProxy n.host → ((locate n).exec t.host s).1 = .ok none) ∧
    (¬ d.IsProxy n.host → ∃ l, ((locate n).exec t.host s).1 = .ok (some l)) := by
  have hplant : d.plant = .ok t := by
    simp only [Tree.ofText, hd, bind, Except.bind] at ht
    split at ht
    · rename_i t' ht'
      obtain rfl := pure_eq_ok.1 ht
      exact ht'
    · cases ht
  have hp := Declaration.planted hplant
  have hforest := hp.rootedForest hneeds
  rw [h.locate_eq hforest hn hlt]
  constructor
  · rintro ⟨owner, hproxy⟩
    exact locate_of_not_enters hforest hlt (hp.parent_eq hproxy) (fun q => ⟨_, rfl⟩)
      (hp.not_enters_proxy hproxy)
  · intro hno
    obtain ⟨_, seat, -, hseat⟩ := hp.exists_node hlt
    refine locate_of_entered hforest hp.entered (fun v hv => hp.size ▸ hv.lt) ⟨seat, hseat, ?_⟩
    cases seat with
    | proxy o => exact absurd ⟨o, hseat⟩ hno
    | top | child _ | derived _ | proxied _ => rfl

/-! ## A file with a binding, which is looked up by nodes that are declared after it -/

/-- The braces are written as numbers. -/
def bindingText : String :=
  "File@1:1-9:1 \x7b ~find($value, [$item]) = Binding \x7b .name() = Name \x7d Item#item " ++
    ".value() = Value#value \x7d"

def bindingSeats : List Seat := [.top, .proxy 0, .proxied 0, .derived 2, .child 0, .derived 0]

def bindingTree : Tree where
  nodes := #[{ type := "File", span := some (.ofLineColumns 1 1 9 1), children := #[4] },
    { type := "Proxy", parent := some 0 }, { type := "Binding", parent := some 1 },
    { type := "Name", parent := some 2 }, { type := "Item", label := some "item", parent := some 0 },
    { type := "Value", label := some "value", parent := some 0 }]
  derived := #[⟨0, "find", [.node (some 5), .collection [.node (some 4)]], 2⟩, ⟨2, "name", [], 3⟩,
    ⟨0, "value", [], 5⟩]

/-- What is looked up is above no node that it needs. -/
theorem not_needs_binding (v : Nat) : ¬ TransGen bindingTree.host.Needs v v := by
  have needs : ∀ {v m}, bindingTree.host.Needs v m →
      ReflTransGen bindingTree.host.HasParent v 2 ∧ (m = 4 ∨ m = 5) := by
    intro v m h
    obtain ⟨d, hd, hup, hm⟩ := Tree.derives_of_needs h
    simp only [bindingTree, List.mem_toArray, List.mem_cons, List.not_mem_nil, or_false] at hd
    obtain rfl | rfl | rfl := hd
    · simp only [Value.nodesList, Value.nodes, Option.toList_some, List.append_nil, List.singleton_append,
        List.mem_cons, List.not_mem_nil, or_false] at hm
      exact ⟨hup, hm.symm⟩
    · cases hm
    · cases hm
  -- The nodes that are needed are right below the file, and so they need nothing.
  have hroot : ¬ ReflTransGen bindingTree.host.HasParent 0 2 := by
    intro h
    obtain hne | ⟨p, hp, -⟩ := ReflTransGen.cases_head h
    · cases hne
    · cases hp
  have hparent : ∀ v p, v = 4 ∨ v = 5 → bindingTree.host.HasParent v p → p = 0 := by
    rintro _ p (rfl | rfl) hp
    · exact (Option.some.inj (Except.ok.inj hp)).symm
    · exact (Option.some.inj (Except.ok.inj hp)).symm
  intro h
  obtain ⟨u, -, hu⟩ := TransGen.tail'_iff.1 h
  obtain ⟨m, hm, -⟩ := TransGen.head'_iff.1 h
  obtain ⟨-, hv⟩ := needs hu
  obtain rfl | ⟨p, hp, hup⟩ := ReflTransGen.cases_head (needs hm).1
  · simp at hv
  · rw [hparent v p hv hp] at hup
    exact hroot hup

def bindingAsked : Snapshot Nat :=
  ((Request.node 3).op.exec bindingTree.host
    ((Request.node 1).op.exec bindingTree.host (ofRoot {} bindingTree.host 0)).2).2

theorem locate_unless_proxy_binding :
    (TreeReader.whole bindingText.toList).map Declaration.seats = .ok bindingSeats ∧
      Tree.ofText bindingText = .ok bindingTree ∧
      ((locate ⟨1, 1⟩).exec bindingTree.host bindingAsked).1 = .ok none ∧
      ∃ l, ((locate ⟨2, 3⟩).exec bindingTree.host bindingAsked).1 = .ok (some l) := by
  have hseats : (TreeReader.whole bindingText.toList).map Declaration.seats = .ok bindingSeats := by
    decide +kernel
  have htree : Tree.ofText bindingText = .ok bindingTree := by decide +kernel
  have hasked : bindingAsked.History bindingTree.host 0 :=
    ((History.fresh {}).request (.node 1)).request (.node 3)
  have hproxy : bindingAsked.handle? 1 = some 1 := by decide +kernel
  have hname : bindingAsked.handle? 2 = some 3 := by decide +kernel
  refine ⟨hseats, htree, ?_⟩
  cases hd : TreeReader.whole bindingText.toList with
  | error e =>
    rw [hd] at hseats
    cases hseats
  | ok d =>
    rw [hd] at hseats
    have hd' : d.seats = bindingSeats := Except.ok.inj hseats
    constructor
    · refine (hasked.locate_unless_proxy hd htree not_needs_binding (n := ⟨1, 1⟩) hproxy (by decide)).1 ?_
      exact ⟨0, by rw [hd']; rfl⟩
    · refine (hasked.locate_unless_proxy hd htree not_needs_binding (n := ⟨2, 3⟩) hname (by decide)).2 ?_
      rintro ⟨owner, hno⟩
      rw [hd'] at hno
      cases hno

end Snapshot

end Waymark
