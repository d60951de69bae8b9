import Waymark.Proofs.Tree.Layout
import Waymark.Proofs.Tree.Locatable

/-!
# Trees that were read are well formed

Below the root every node is a child, the result of a call or the proxy of such a result. It is only one of
them, and it is in one place only. So a call can be told by its result. The result can be told by the call,
unless an earlier call on the same owner looks the same.
-/

namespace Waymark

open View

namespace Tree

/-! ## Kinds of nodes -/

def parentOf (t : Tree) (v : Nat) : Option Nat := t.nodes[v]?.bind (·.parent)

def ChildAt (t : Tree) (p i v : Nat) : Prop :=
  ∃ node, t.nodes[p]? = some node ∧ node.children[i]? = some v

/-- Of all places in child lists, `v` is in one. That is in the list of its parent. -/
structure IsStructural (t : Tree) (v : Nat) : Prop where
  listed : ∃ p i, t.parentOf v = some p ∧ ∀ q j, t.ChildAt q j v ↔ q = p ∧ j = i
  not_result : ∀ e ∈ t.derived, e.node ≠ v

/-- `v` stands between `owner` and `value`, the result of a call on it. Nothing else leads to it or from it. -/
structure IsProxyOf (t : Tree) (v owner value : Nat) : Prop where
  node : t.nodes[v]? = some { proxy with parent := some owner }
  below : ∀ u, t.parentOf u = some v ↔ u = value
  derives : t.Derives owner value
  unlisted : ∀ p i, ¬ t.ChildAt p i v
  unmentioned : ∀ e ∈ t.derived, e.owner ≠ v ∧ e.node ≠ v ∧ v ∉ Value.nodesList e.args

/-- `v` is the result of the call in place `k`, and of no other. It hangs below the owner of the call, or below
a proxy of it. -/
structure IsResultOf (t : Tree) (v k : Nat) (e : Derivation) : Prop where
  entry : ∀ (j : Nat) (d : Derivation), t.derived[j]? = some d ∧ d.node = v ↔ j = k ∧ d = e
  unlisted : ∀ p i, ¬ t.ChildAt p i v
  parent : t.parentOf v = some e.owner ∨ ∃ p, t.parentOf v = some p ∧ t.IsProxyOf p e.owner v

def IsProxy (t : Tree) (v : Nat) : Prop := ∃ owner value, t.IsProxyOf v owner value

def IsResult (t : Tree) (v : Nat) : Prop := ∃ k e, t.IsResultOf v k e

structure WellFormed (t : Tree) : Prop where
  root : 0 < t.size ∧ t.parentOf 0 = none
  root_unlisted : ∀ p i, ¬ t.ChildAt p i 0
  root_not_result : ∀ e ∈ t.derived, e.node ≠ 0
  parent_lt : ∀ v, 0 < v → v < t.size → ∃ p, t.parentOf v = some p ∧ p < v
  /-- Every node is of exactly one kind. -/
  kind : ∀ v, 0 < v → v < t.size →
    t.IsStructural v ∧ ¬ t.IsResult v ∧ ¬ t.IsProxy v ∨
    ¬ t.IsStructural v ∧ t.IsResult v ∧ ¬ t.IsProxy v ∨
    ¬ t.IsStructural v ∧ ¬ t.IsResult v ∧ t.IsProxy v
  origin : ∀ e ∈ t.derived, t.host.origin e.owner e.node = .ok (some ⟨e.name, e.args⟩)
  invoke : ∀ (k : Nat) (e : Derivation), t.derived[k]? = some e →
    (t.host.invoke e.owner e.name e.args = .ok (some e.node) ↔
      ∀ (j : Nat) (d : Derivation), j < k → t.derived[j]? = some d →
        ¬ (d.owner = e.owner ∧ d.name = e.name ∧ d.args = e.args))

end Tree

/-! ## The order of the results -/

namespace Calling

structure Rising (low high : Nat) (cs : List Calling) : Prop where
  bounds : ∀ c ∈ cs, low ≤ c.node ∧ c.node < high
  increasing : cs.Pairwise (·.node < ·.node)

variable {low middle high : Nat} {cs cs' : List Calling} {c : Calling}

theorem rising_nil : Rising low high [] := ⟨nofun, .nil⟩

theorem Rising.widen (h : Rising middle high cs) (hle : low ≤ middle) : Rising low high cs :=
  ⟨fun c hc => ⟨Nat.le_trans hle (h.bounds c hc).1, (h.bounds c hc).2⟩, h.increasing⟩

theorem Rising.cons (h : Rising (c.node + 1) high cs) (hlow : low ≤ c.node) (hhigh : c.node < high) :
    Rising low high (c :: cs) where
  bounds := by
    refine List.forall_mem_cons.2 ⟨⟨hlow, hhigh⟩, fun d hd => ?_⟩
    have hd := h.bounds d hd
    omega
  increasing := List.pairwise_cons.2 ⟨fun d hd => (h.bounds d hd).1, h.increasing⟩

theorem Rising.append (h : Rising low middle cs) (h' : Rising middle high cs') (hlow : low ≤ middle)
    (hhigh : middle ≤ high) : Rising low high (cs ++ cs') where
  bounds c hc := by
    rcases List.mem_append.1 hc with hc | hc
    · have hc := h.bounds c hc
      omega
    · have hc := h'.bounds c hc
      omega
  increasing := by
    refine List.pairwise_append.2 ⟨h.increasing, h'.increasing, fun c hc d hd => ?_⟩
    have hc := h.bounds c hc
    have hd := h'.bounds d hd
    omega

end Calling

mutual

theorem Declaration.rising_callsFrom : ∀ (d : Declaration) (n : Nat),
    Calling.Rising (n + 1) (n + d.size) (d.callsFrom n)
  | .node _ body, n => by
    rw [Declaration.callsFrom, Declaration.size, ← Nat.add_assoc]
    exact Entry.rising_callsOf body n (n + 1)

theorem Entry.rising_calls : ∀ (e : Entry) (owner next : Nat),
    Calling.Rising next (next + e.size) (e.calls owner next)
  | .child d, owner, next => by
    rw [Entry.calls, Entry.size]
    exact (d.rising_callsFrom next).widen (Nat.le_succ next)
  | .derived false _ _ d, owner, next => by
    rw [Entry.calls, Entry.size]
    exact (d.rising_callsFrom next).cons (Nat.le_refl next) (Nat.lt_add_of_pos_right d.size_pos)
  | .derived true _ _ d, owner, next => by
    rw [Entry.calls, Entry.size, ← Nat.add_assoc]
    exact (d.rising_callsFrom (next + 1)).cons (Nat.le_succ next) (Nat.lt_add_of_pos_right d.size_pos)

theorem Entry.rising_callsOf : ∀ (es : List Entry) (owner next : Nat),
    Calling.Rising next (next + Entry.sizeAll es) (Entry.callsOf owner next es)
  | [], _, _ => Calling.rising_nil
  | e :: es, owner, next => by
    rw [Entry.callsOf, Entry.sizeAll, ← Nat.add_assoc]
    exact (Entry.rising_calls e owner next).append (Entry.rising_callsOf es owner (next + e.size))
      (Nat.le_add_right ..) (Nat.le_add_right ..)

end

/-! ## Proxies -/

namespace Seat

/-- The proxies among the nodes are just proxies, and each has a value after it. -/
structure Screens (seats : List Seat) (nodes : List TreeNode) : Prop where
  length : seats.length = nodes.length
  proxy : ∀ (i : Nat) o, seats[i]? = some (.proxy o) →
    nodes[i]? = some { Tree.proxy with parent := some o } ∧ seats[i + 1]? = some (.proxied o)

variable {seats seats' : List Seat} {nodes nodes' : List TreeNode} {seat : Seat} {node : TreeNode}

theorem screens_nil : Screens [] [] := ⟨rfl, nofun⟩

theorem Screens.cons (h : Screens seats nodes) (hseat : ∀ o, seat ≠ .proxy o) :
    Screens (seat :: seats) (node :: nodes) where
  length := congrArg (· + 1) h.length
  proxy i o hi := by
    cases i with
    | zero => exact absurd (Option.some.inj hi) (hseat o)
    | succ i => exact h.proxy i o hi

theorem Screens.append (h : Screens seats nodes) (h' : Screens seats' nodes') :
    Screens (seats ++ seats') (nodes ++ nodes') where
  length := by rw [List.length_append, List.length_append, h.length, h'.length]
  proxy i o hi := by
    rcases Nat.lt_or_ge i seats.length with hlt | hge
    · rw [List.getElem?_append_left hlt] at hi
      obtain ⟨hnode, hnext⟩ := h.proxy i o hi
      have hlt' : i + 1 < seats.length := (List.getElem?_eq_some_iff.1 hnext).1
      rw [List.getElem?_append_left (h.length ▸ hlt), List.getElem?_append_left hlt']
      exact ⟨hnode, hnext⟩
    · rw [List.getElem?_append_right hge] at hi
      obtain ⟨hnode, hnext⟩ := h'.proxy _ o hi
      rw [List.getElem?_append_right (h.length ▸ hge), List.getElem?_append_right (by omega), ← h.length]
      refine ⟨hnode, ?_⟩
      rwa [Nat.sub_add_comm hge]

theorem Screens.proxied {o : Nat} (h : Screens seats nodes) :
    Screens (.proxy o :: .proxied o :: seats) ({ Tree.proxy with parent := some o } :: node :: nodes) where
  length := congrArg (· + 2) h.length
  proxy i o' hi := by
    have hrest : Screens (.proxied o :: seats) (node :: nodes) := h.cons nofun
    cases i with
    | zero =>
      cases hi
      exact ⟨rfl, rfl⟩
    | succ i => exact hrest.proxy i o' hi

end Seat

mutual

theorem Entry.screens_seats : ∀ (e : Entry) (owner next : Nat),
    Seat.Screens (e.seats owner next) (e.nodes owner next)
  | .child (.node _ body), owner, next => by
    rw [Entry.seats, Entry.nodes, Declaration.nodesFrom]
    exact (Entry.screens_seatsOf body next (next + 1)).cons nofun
  | .derived false _ _ (.node _ body), owner, next => by
    rw [Entry.seats, Entry.nodes, Declaration.nodesFrom]
    exact (Entry.screens_seatsOf body next (next + 1)).cons nofun
  | .derived true _ _ (.node _ body), owner, next => by
    rw [Entry.seats, Entry.nodes, Declaration.nodesFrom]
    exact (Entry.screens_seatsOf body (next + 1) (next + 2)).proxied

theorem Entry.screens_seatsOf : ∀ (es : List Entry) (owner next : Nat),
    Seat.Screens (Entry.seatsOf owner next es) (Entry.nodesOf owner next es)
  | [], _, _ => by
    rw [Entry.seatsOf, Entry.nodesOf]
    exact Seat.screens_nil
  | e :: es, owner, next => by
    have he := Entry.screens_seats e owner next
    rw [Entry.seatsOf, Entry.nodesOf, he.length, Entry.length_nodes]
    exact he.append (Entry.screens_seatsOf es owner (next + e.size))

end

theorem Declaration.screens_seats (d : Declaration) : Seat.Screens d.seats d.nodes := by
  cases d with
  | node head body =>
    rw [Declaration.seats, Declaration.nodes, Declaration.nodesFrom]
    exact (Entry.screens_seatsOf body 0 1).cons nofun

/-! ## All together -/

/-- What a planted tree is made of, whatever the arguments of its calls have become. -/
theorem Declaration.nodes_of_plant {d : Declaration} {t : Tree} (h : d.plant = .ok t) :
    t.nodes = d.nodes.toArray ∧ t.derived.toList.Pairwise (·.node < ·.node) := by
  simp only [Declaration.plant, bind_eq_ok, pure_eq_ok] at h
  obtain ⟨ds, hds, rfl⟩ := h
  obtain ⟨hends, -⟩ := Sapling.derivations_eq_ok (Sapling.seated_ofDeclaration d).pending hds
  refine ⟨by rw [Sapling.ofDeclaration_eq], ?_⟩
  have hrising : (d.calls.map (·.node)).Pairwise (· < ·) :=
    List.pairwise_map.2 (d.rising_callsFrom 0).increasing
  have hnodes : ds.map (·.node) = d.calls.map (·.node) := by
    have hsnd := congrArg (List.map Prod.snd) hends
    simpa [Sapling.ofDeclaration_eq, Function.comp_def] using hsnd
  exact List.pairwise_map.1 (hnodes ▸ hrising)

namespace Tree

section
variable {t : Tree} (hrising : t.derived.toList.Pairwise (·.node < ·.node)) {k : Nat} {e : Derivation}
include hrising

/-- Different calls have different results. -/
theorem index_unique {j : Nat} {d : Derivation} (hd : t.derived[j]? = some d) (he : t.derived[k]? = some e)
    (hnode : d.node = e.node) : j = k := by
  rw [← Array.getElem?_toList] at hd he
  obtain ⟨hj, rfl⟩ := List.getElem?_eq_some_iff.1 hd
  obtain ⟨hk, rfl⟩ := List.getElem?_eq_some_iff.1 he
  have hlt := List.pairwise_iff_getElem.1 hrising
  rcases Nat.lt_trichotomy j k with hjk | hjk | hjk
  · exact absurd hnode (Nat.ne_of_lt (hlt j k hj hk hjk))
  · exact hjk
  · exact absurd hnode.symm (Nat.ne_of_lt (hlt k j hk hj hjk))

theorem origin_eq (he : e ∈ t.derived) : t.host.origin e.owner e.node = .ok (some ⟨e.name, e.args⟩) := by
  obtain ⟨k, he⟩ := Array.mem_iff_getElem?.1 he
  have hfind : t.derived.find? (fun d => d.owner == e.owner && d.node == e.node) = some e := by
    obtain ⟨hk, hget⟩ := Array.getElem?_eq_some_iff.1 he
    refine Array.find?_eq_some_iff_getElem.2 ⟨by simp, k, hk, hget, fun j hjk => ?_⟩
    have hne : t.derived[j].node ≠ e.node := fun hnode =>
      Nat.ne_of_lt hjk (index_unique hrising (Array.getElem?_eq_getElem _) he hnode)
    simp [hne]
  show Except.ok (t.originOf e.owner e.node) = _
  rw [originOf, hfind]
  rfl

theorem resultOf_eq_iff (he : t.derived[k]? = some e) : t.resultOf e.owner e.name e.args = some e.node ↔
    ∀ (j : Nat) (d : Derivation), j < k → t.derived[j]? = some d →
      ¬ (d.owner = e.owner ∧ d.name = e.name ∧ d.args = e.args) := by
  rw [resultOf, Option.map_eq_some_iff]
  constructor
  · rintro ⟨d', hfind, hnode⟩ j d hjk hd
    obtain ⟨-, i, hi, hget, hfirst⟩ := Array.find?_eq_some_iff_getElem.1 hfind
    obtain rfl : i = k := index_unique hrising (hget ▸ Array.getElem?_eq_getElem hi) he hnode
    obtain ⟨hj, rfl⟩ := Array.getElem?_eq_some_iff.1 hd
    have hother := hfirst j hjk
    simp only [Bool.not_eq_true', Bool.and_eq_false_iff, beq_eq_false_iff_ne] at hother
    tauto
  · intro hfirst
    obtain ⟨hk, hget⟩ := Array.getElem?_eq_some_iff.1 he
    refine ⟨e, Array.find?_eq_some_iff_getElem.2 ⟨by simp, k, hk, hget, fun j hjk => ?_⟩, rfl⟩
    have hother := hfirst j t.derived[j] hjk (Array.getElem?_eq_getElem _)
    simp only [Bool.not_eq_true', Bool.and_eq_false_iff, beq_eq_false_iff_ne]
    tauto

end

theorem parentOf_eq_some {t : Tree} {v p : Nat} : t.parentOf v = some p ↔ t.host.HasParent v p := by
  rw [hasParent_iff, parentOf, Option.bind_eq_some_iff]

/-! ## Only one kind -/

section
variable {t : Tree} {v : Nat}

theorem IsResult.exists_entry (h : t.IsResult v) : ∃ e ∈ t.derived, e.node = v := by
  obtain ⟨k, e, h⟩ := h
  obtain ⟨he, hnode⟩ := (h.entry k e).2 ⟨rfl, rfl⟩
  exact ⟨e, Array.mem_of_getElem? he, hnode⟩

theorem IsStructural.not_isResult (h : t.IsStructural v) : ¬ t.IsResult v := by
  intro hresult
  obtain ⟨e, he, hnode⟩ := hresult.exists_entry
  exact h.not_result e he hnode

theorem IsProxy.not_isResult (h : t.IsProxy v) : ¬ t.IsResult v := by
  intro hresult
  obtain ⟨owner, value, h⟩ := h
  obtain ⟨e, he, hnode⟩ := hresult.exists_entry
  exact (h.unmentioned e he).2.1 hnode

theorem IsProxy.not_isStructural (h : t.IsProxy v) : ¬ t.IsStructural v := by
  rintro ⟨⟨p, i, -, hlisted⟩, -⟩
  obtain ⟨owner, value, h⟩ := h
  exact h.unlisted p i ((hlisted p i).2 ⟨rfl, rfl⟩)

end

/-! ## Kinds by seats -/

section
variable {t : Tree} {seats : List Seat} (h : t.Planted seats) {v p o : Nat} {seat : Seat}
include h

theorem Planted.parentOf_eq (hv : seats[v]? = some seat) : t.parentOf v = seat.parent? v := by
  obtain ⟨node, _, hnode, -⟩ := h.exists_node (h.lt hv)
  rw [parentOf, hnode]
  exact (h.sits v node hnode).parent seat hv

theorem Planted.seat_of_childAt {i : Nat} (hc : t.ChildAt p i v) : seats[v]? = some (.child p) :=
  h.isChild_iff.1 ⟨i, lists_iff.2 hc⟩

theorem Planted.unlisted (hv : seats[v]? = some seat) (hseat : ∀ p, seat ≠ .child p) (p i : Nat) :
    ¬ t.ChildAt p i v := by
  intro hc
  exact hseat p (Option.some.inj (hv.symm.trans (h.seat_of_childAt hc)))

theorem Planted.seat_of_entry {e : Derivation} (he : e ∈ t.derived) :
    ∃ seat, seats[e.node]? = some seat ∧ seat.caller? = some e.owner :=
  (h.derives e.owner e.node).1 ⟨e, he, rfl, rfl⟩

theorem Planted.not_result (hv : seats[v]? = some seat) (hseat : seat.caller? = none) :
    ∀ e ∈ t.derived, e.node ≠ v := by
  rintro e he rfl
  obtain ⟨_, hv', hcaller⟩ := h.seat_of_entry he
  rw [← Option.some.inj (hv.symm.trans hv'), hseat] at hcaller
  cases hcaller

theorem Planted.isStructural (hv : seats[v]? = some (.child p)) : t.IsStructural v where
  listed := by
    obtain ⟨i, hi⟩ := h.isChild_iff.2 hv
    refine ⟨p, i, h.parentOf_eq hv, fun q j => ⟨fun hc => ?_, ?_⟩⟩
    · obtain rfl : p = q := by simpa [hv] using h.seat_of_childAt hc
      have howner := (h.arranged.owner v _ p hv rfl).2
      exact ⟨rfl, h.grown.once p j i v (h.size ▸ howner.lt) (lists_iff.2 hc) hi⟩
    · rintro ⟨rfl, rfl⟩
      exact lists_iff.1 hi
  not_result := h.not_result hv rfl

theorem Planted.parent_proxy_iff (hv : seats[v]? = some (.proxy o)) (hnext : seats[v + 1]? = some (.proxied o))
    (u : Nat) : t.parentOf u = some v ↔ u = v + 1 := by
  refine ⟨fun hu => ?_, ?_⟩
  · obtain ⟨seat, hseat, hparent⟩ := h.hasParent (parentOf_eq_some.1 hu)
    cases seat with
    | top => cases hparent
    | child o' | derived o' | proxy o' =>
      -- A proxy owns nothing.
      cases hparent
      exact absurd (h.arranged.owner u _ v hseat rfl).2 (Seat.not_proper_proxy hv)
    | proxied o' =>
      obtain ⟨j, rfl, -⟩ := h.arranged.proxied u o' hseat
      cases hparent
      rfl
  · rintro rfl
    exact h.parentOf_eq hnext

variable (hscreens : Seat.Screens seats t.nodes.toList)
include hscreens

theorem Planted.isProxyOf (hv : seats[v]? = some (.proxy o)) : t.IsProxyOf v o (v + 1) := by
  obtain ⟨hnode, hnext⟩ := hscreens.proxy v o hv
  rw [Array.getElem?_toList] at hnode
  refine ⟨hnode, h.parent_proxy_iff hv hnext, (h.derives o (v + 1)).2 ⟨_, hnext, rfl⟩,
    h.unlisted hv nofun, fun e he => ⟨?_, h.not_result hv rfl e he, fun hm => ?_⟩⟩
  · rintro rfl
    exact Seat.not_proper_proxy hv (h.proper_of_derives ⟨e, he, rfl, rfl⟩)
  · exact Seat.not_proper_proxy hv (h.arguments e he v hm)

theorem Planted.isResult (hrising : t.derived.toList.Pairwise (·.node < ·.node))
    (hv : seats[v]? = some seat) (hcaller : seat.caller? = some o) : t.IsResult v := by
  obtain ⟨e, he, rfl, rfl⟩ := (h.derives o v).2 ⟨seat, hv, hcaller⟩
  obtain ⟨k, hk⟩ := Array.mem_iff_getElem?.1 he
  refine ⟨k, e, fun j d => ⟨fun ⟨hd, hnode⟩ => ?_, ?_⟩, h.unlisted hv ?_, ?_⟩
  · obtain rfl := index_unique hrising hd hk hnode
    exact ⟨rfl, Option.some.inj (hd.symm.trans hk)⟩
  · rintro ⟨rfl, rfl⟩
    exact ⟨hk, rfl⟩
  · rintro p rfl
    cases hcaller
  · cases seat with
    | top | child _ | proxy _ => cases hcaller
    | derived o =>
      cases hcaller
      exact .inl (h.parentOf_eq hv)
    | proxied o =>
      cases hcaller
      obtain ⟨j, hj, hproxy⟩ := h.arranged.proxied e.node e.owner hv
      have hparent := h.parentOf_eq hv
      rw [hj] at hparent
      rw [hj]
      exact .inr ⟨j, hparent, h.isProxyOf hscreens hproxy⟩

theorem Planted.wellFormed (hrising : t.derived.toList.Pairwise (·.node < ·.node)) : t.WellFormed := by
  have htop := (h.arranged.top 0).2 rfl
  refine ⟨⟨h.lt htop, h.parentOf_eq htop⟩, h.unlisted htop nofun, h.not_result htop rfl, ?_, ?_,
    fun e he => origin_eq hrising he, fun k e hk => ?_⟩
  · intro v hpos hlt
    obtain ⟨_, seat, -, hseat⟩ := h.exists_node hlt
    have hparent := h.parentOf_eq hseat
    cases seat with
    | top => exact absurd ((h.arranged.top v).1 hseat) (Nat.ne_of_gt hpos)
    | child _ | derived _ | proxy _ | proxied _ =>
      exact ⟨_, hparent, h.parent_lt (parentOf_eq_some.1 hparent)⟩
  · intro v hpos hlt
    obtain ⟨_, seat, -, hseat⟩ := h.exists_node hlt
    have hsome : t.IsStructural v ∨ t.IsResult v ∨ t.IsProxy v := by
      cases seat with
      | top => exact absurd ((h.arranged.top v).1 hseat) (Nat.ne_of_gt hpos)
      | child p => exact .inl (h.isStructural hseat)
      | derived o | proxied o => exact .inr (.inl (h.isResult hscreens hrising hseat rfl))
      | proxy o => exact .inr (.inr ⟨o, v + 1, h.isProxyOf hscreens hseat⟩)
    rcases hsome with hs | hs | hs
    · exact .inl ⟨hs, hs.not_isResult, fun hp => hp.not_isStructural hs⟩
    · exact .inr (.inl ⟨fun hc => hc.not_isResult hs, hs, fun hp => hp.not_isResult hs⟩)
    · exact .inr (.inr ⟨hs.not_isStructural, hs.not_isResult, hs⟩)
  · have howner := h.proper_of_derives ⟨e, Array.mem_of_getElem? hk, rfl, rfl⟩
    obtain ⟨node, _, hnode, -⟩ := h.exists_node (h.size ▸ howner.lt)
    have hinvoke : t.host.invoke e.owner e.name e.args = .ok (t.resultOf e.owner e.name e.args) := by
      simp only [host, get_eq_ok.2 hnode]
      rfl
    rw [hinvoke, ← resultOf_eq_iff hrising hk, Except.ok.injEq]

end

theorem exists_plant_of_ofText {text : String} {t : Tree} (h : Tree.ofText text = .ok t) :
    ∃ d : Declaration, d.plant = .ok t := by
  rw [Tree.ofText, bind_eq_ok] at h
  obtain ⟨d, -, h⟩ := h
  refine ⟨d, ?_⟩
  split at h
  · rename_i t' ht'
    rw [ht', pure_eq_ok.1 h]
  · cases h

/-- Every text that is accepted gives a tree that is well formed. -/
theorem wellFormed_ofText {text : String} {t : Tree} (h : Tree.ofText text = .ok t) : t.WellFormed := by
  obtain ⟨d, hd⟩ := exists_plant_of_ofText h
  obtain ⟨hnodes, hrising⟩ := Declaration.nodes_of_plant hd
  refine (Declaration.planted hd).wellFormed ?_ hrising
  rw [hnodes]
  exact d.screens_seats

/-- A call that is made twice, the first time through a proxy. -/
def repeatedText : String := "Shop { ~find(1) = Book { Page } .find(1) = Map }"

def repeatedTree : Tree where
  nodes := #[{ type := "Shop" }, { type := "Proxy", parent := some 0 },
    { type := "Book", parent := some 1, children := #[3] }, { type := "Page", parent := some 2 },
    { type := "Map", parent := some 0 }]
  derived := #[⟨0, "find", [.integer 1], 2⟩, ⟨0, "find", [.integer 1], 4⟩]

theorem wellFormed_ofText_repeated : Tree.ofText repeatedText = .ok repeatedTree ∧ repeatedTree.WellFormed ∧
    repeatedTree.host.invoke 0 "find" [.integer 1] = .ok (some 2) ∧
    repeatedTree.host.invoke 0 "find" [.integer 1] ≠ .ok (some 4) := by
  have htree : Tree.ofText repeatedText = .ok repeatedTree := by decide +kernel
  have h := wellFormed_ofText htree
  refine ⟨htree, h, (h.invoke 0 _ rfl).2 nofun, fun hmap => ?_⟩
  exact (h.invoke 1 ⟨0, "find", [.integer 1], 4⟩ rfl).1 hmap 0 _ (by decide) rfl ⟨rfl, rfl, rfl⟩

end Tree

end Waymark
