import Waymark.Proofs.View.Basic
import Waymark.Tree.Declaration

/-!
# How a planted tree hangs together

The seats of a declaration say for each of its nodes, in the order of the text, what it was declared as
and whose it is. Planting adds one node after the other, each in its seat, and what was said about the
nodes before stays true.
-/

namespace Waymark

open View

/-- What a node was declared as, and by which owner. -/
inductive Seat where
  | top
  | child (owner : Nat)
  | derived (owner : Nat)
  /-- Between a derived value and its owner. -/
  | proxy (owner : Nat)
  /-- A derived value below a proxy, which has the number before. -/
  | proxied (owner : Nat)
  deriving DecidableEq, Repr

namespace Seat

def owner? : Seat → Option Nat
  | top => none
  | child owner | derived owner | proxy owner | proxied owner => some owner

def isProxy : Seat → Bool
  | proxy _ => true
  | _ => false

def caller? : Seat → Option Nat
  | derived owner | proxied owner => some owner
  | _ => none

theorem owner?_of_caller? {seat : Seat} {o : Nat} (h : seat.caller? = some o) : seat.owner? = some o := by
  cases seat with
  | derived _ | proxied _ => exact h
  | top | child _ | proxy _ => cases h

def parent? (i : Nat) : Seat → Option Nat
  | top => none
  | child owner | derived owner | proxy owner => some owner
  | proxied _ => some (i - 1)

end Seat

mutual

def Entry.seats (owner next : Nat) : Entry → List Seat
  | .child (.node _ body) => .child owner :: Entry.seatsOf next (next + 1) body
  | .derived false _ _ (.node _ body) => .derived owner :: Entry.seatsOf next (next + 1) body
  | .derived true _ _ (.node _ body) =>
    .proxy owner :: .proxied owner :: Entry.seatsOf (next + 1) (next + 2) body

def Entry.seatsOf (owner next : Nat) : List Entry → List Seat
  | [] => []
  | e :: es => e.seats owner next ++ Entry.seatsOf owner (next + (e.seats owner next).length) es

end

def Declaration.seats : Declaration → List Seat
  | .node _ body => .top :: Entry.seatsOf 0 1 body

def Declaration.IsProxy (d : Declaration) (n : Nat) : Prop := ∃ owner, d.seats[n]? = some (.proxy owner)

/-! ## Adding a node -/

namespace Tree

def Derives (t : Tree) (owner node : Nat) : Prop := ∃ d ∈ t.derived, d.owner = owner ∧ d.node = node

structure Gains (t t' : Tree) (seat : Seat) : Prop where
  size : t'.size = t.size + 1
  old : ∀ i, i < t.size → t'.nodes[i]? = t.nodes[i]?.map fun n =>
    if seat = .child i then { n with children := n.children.push t.size } else n
  new : ∃ head : TreeHead, t'.nodes[t.size]? = some { head with parent := seat.parent? t.size } ∧
    ∀ owner, seat = .proxy owner → head.label = none
  derives : ∀ owner node, t'.Derives owner node ↔
    t.Derives owner node ∨ node = t.size ∧ seat.caller? = some owner

theorem gains_addChild {t : Tree} {owner : Nat} (h : owner < t.size) (head : TreeHead) :
    t.Gains (t.addChild owner head) (.child owner) where
  size := by simp [addChild, push, update, size]
  old i hi := by
    have hne : i ≠ t.nodes.size := Nat.ne_of_lt hi
    simp only [addChild, push, update, Array.getElem?_modify, Array.getElem?_push, if_neg hne, Seat.child.injEq]
    split <;> simp
  new := by
    have hne : owner ≠ t.nodes.size := Nat.ne_of_lt h
    refine ⟨head, ?_, nofun⟩
    simp only [addChild, push, update, size, Array.getElem?_modify, if_neg hne, Array.getElem?_push_size]
    rfl
  derives a b := by simp [Derives, addChild, push, update, Seat.caller?]

theorem gains_addDerived (t : Tree) (owner : Nat) (name : String) (args : List (Value Nat))
    (head : TreeHead) : t.Gains (t.addDerived owner name args head) (.derived owner) where
  size := by simp [addDerived, push, size]
  old i hi := by
    have hne : i ≠ t.nodes.size := Nat.ne_of_lt hi
    simp [addDerived, push, Array.getElem?_push, hne]
  new := ⟨head, by simp [addDerived, push, size, Seat.parent?], nofun⟩
  derives a b := by
    simp only [Derives, addDerived, push, Array.mem_push, or_and_right, exists_or, exists_eq_left,
      Seat.caller?, Option.some.injEq]
    exact or_congr_right ⟨fun h => ⟨h.2.symm, h.1⟩, fun h => ⟨h.2, h.1.symm⟩⟩

theorem gains_push_proxy (t : Tree) (owner : Nat) : t.Gains (t.push proxy owner) (.proxy owner) where
  size := by simp [push, size]
  old i hi := by
    have hne : i ≠ t.nodes.size := Nat.ne_of_lt hi
    simp [push, Array.getElem?_push, hne]
  new := ⟨proxy, by simp [push, size, Seat.parent?], fun _ _ => rfl⟩
  derives a b := by simp [Derives, push, Seat.caller?]

theorem gains_addProxied (t : Tree) (owner : Nat) (name : String) (args : List (Value Nat))
    (head : TreeHead) :
    (t.push proxy owner).Gains (t.addProxied owner name args head) (.proxied owner) := by
  have hsize : (t.push proxy owner).nodes.size = t.nodes.size + 1 := (gains_push_proxy t owner).size
  have hadd := gains_addDerived (t.push proxy owner) owner name args head
  refine ⟨?_, fun i hi => ?_, ⟨head, ?_, nofun⟩, fun a b => hadd.derives a b⟩
  · rw [← hadd.size]
    simp [addProxied, update, size]
  · have hne : t.nodes.size + 1 ≠ i := by
      have hi' : i < (t.push proxy owner).nodes.size := hi
      omega
    rw [addProxied, update, Array.getElem?_modify, size, if_neg hne, hadd.old i hi]
    simp
  · simp [addProxied, update, addDerived, push, size, Array.getElem_modify, Array.getElem_push,
      Seat.parent?]

end Tree

/-! ## All nodes in their seats -/

namespace Seat

def Proper (seats : List Seat) (i : Nat) : Prop := ∃ seat, seats[i]? = some seat ∧ seat.isProxy = false

/-- The root has the first seat, and all others have owners before them. -/
structure Arranged (seats : List Seat) : Prop where
  top : ∀ i : Nat, seats[i]? = some .top ↔ i = 0
  owner : ∀ (i : Nat) seat o, seats[i]? = some seat → seat.owner? = some o → o < i ∧ Proper seats o
  proxied : ∀ (i : Nat) o, seats[i]? = some (.proxied o) → ∃ j, i = j + 1 ∧ seats[j]? = some (.proxy o)

variable {seats : List Seat} {seat x : Seat} {i : Nat}

theorem getElem?_concat : (seats ++ [seat])[i]? = some x ↔
    seats[i]? = some x ∨ i = seats.length ∧ x = seat := by
  grind

theorem Proper.lt (h : Proper seats i) : i < seats.length := by
  obtain ⟨_, hi, -⟩ := h
  exact (List.getElem?_eq_some_iff.1 hi).1

theorem not_proper_proxy {o : Nat} (h : seats[i]? = some (proxy o)) : ¬ Proper seats i := by
  rintro ⟨x, hx, hproper⟩
  rw [← Option.some.inj (h.symm.trans hx)] at hproper
  cases hproper

theorem Proper.append (h : Proper seats i) (more : List Seat) : Proper (seats ++ more) i := by
  obtain ⟨x, hi, hx⟩ := id h
  exact ⟨x, by rw [List.getElem?_append_left h.lt, hi], hx⟩

structure Joins (seats : List Seat) (seat : Seat) : Prop where
  owned : ∃ o, seat.owner? = some o ∧ Proper seats o
  proxied : ∀ o, seat = .proxied o → ∃ j, seats.length = j + 1 ∧ seats[j]? = some (.proxy o)

theorem Arranged.concat (h : Arranged seats) (hj : Joins seats seat) : Arranged (seats ++ [seat]) where
  top i := by
    obtain ⟨o, ho, -⟩ := hj.owned
    rw [getElem?_concat, h.top]
    refine ⟨fun hi => hi.elim id fun hi => ?_, .inl⟩
    rw [← hi.2] at ho
    cases ho
  owner i x o hi ho := by
    rcases getElem?_concat.1 hi with hi | ⟨rfl, rfl⟩
    · obtain ⟨hlt, hproper⟩ := h.owner i x o hi ho
      exact ⟨hlt, hproper.append _⟩
    · obtain ⟨o', ho', hproper⟩ := hj.owned
      obtain rfl : o = o' := Option.some.inj (ho.symm.trans ho')
      exact ⟨hproper.lt, hproper.append _⟩
  proxied i o hi := by
    have before : ∀ j : Nat, seats[j]? = some (proxy o) → (seats ++ [seat])[j]? = some (proxy o) :=
      fun j hj => getElem?_concat.2 (.inl hj)
    rcases getElem?_concat.1 hi with hi | ⟨rfl, rfl⟩
    · obtain ⟨j, hij, hproxy⟩ := h.proxied i o hi
      exact ⟨j, hij, before j hproxy⟩
    · obtain ⟨j, hij, hproxy⟩ := hj.proxied o rfl
      exact ⟨j, hij, before j hproxy⟩

end Seat

structure TreeNode.Sits (node : TreeNode) (seats : List Seat) (i : Nat) : Prop where
  parent : ∀ seat, seats[i]? = some seat → node.parent = seat.parent? i
  label : ∀ o, seats[i]? = some (.proxy o) → node.label = none
  nodup : node.children.toList.Nodup
  children : ∀ c, c ∈ node.children ↔ seats[c]? = some (.child i)

namespace TreeNode

variable {node : TreeNode} {seats : List Seat} {seat : Seat} {i : Nat}

/-- A node from before, which may get the new one for its child. -/
theorem Sits.concat (h : node.Sits seats i) (hi : i < seats.length) :
    (if seat = .child i then { node with children := node.children.push seats.length } else node).Sits
      (seats ++ [seat]) i := by
  have hold : ∀ x, (seats ++ [seat])[i]? = some x → seats[i]? = some x := fun x hx =>
    (Seat.getElem?_concat.1 hx).resolve_right fun hx => Nat.ne_of_lt hi hx.1
  have hfresh : seats.length ∉ node.children := by
    rw [h.children, List.getElem?_eq_none (Nat.le_refl _)]
    nofun
  split
  · rename_i hseat
    refine ⟨fun x hx => h.parent x (hold x hx), fun o ho => h.label o (hold _ ho), ?_, fun c => ?_⟩
    · rw [Array.toList_push]
      refine List.nodup_append.2 ⟨h.nodup, List.nodup_singleton _, fun a ha b hb he => ?_⟩
      rw [List.mem_singleton.1 hb] at he
      exact hfresh (he ▸ Array.mem_toList_iff.1 ha)
    · rw [Array.mem_push, h.children, Seat.getElem?_concat, hseat]
      simp
  · rename_i hseat
    refine ⟨fun x hx => h.parent x (hold x hx), fun o ho => h.label o (hold _ ho), h.nodup, fun c => ?_⟩
    rw [h.children, Seat.getElem?_concat]
    refine ⟨.inl, fun hc => hc.resolve_right fun hc => hseat hc.2.symm⟩

theorem sits_new {head : TreeHead} (harr : Seat.Arranged (seats ++ [seat]))
    (hlabel : ∀ o, seat = .proxy o → head.label = none) :
    TreeNode.Sits { head with parent := seat.parent? seats.length } (seats ++ [seat]) seats.length where
  parent x hx := by
    rw [List.getElem?_concat_length] at hx
    rw [← Option.some.inj hx]
  label o ho := by
    rw [List.getElem?_concat_length] at ho
    exact hlabel o (Option.some.inj ho)
  nodup := List.nodup_nil
  children c := by
    refine ⟨fun hc => by simp at hc, fun hc => ?_⟩
    -- An owner comes before what it owns, so the last node owns nothing.
    have howner := (harr.owner c _ _ hc rfl).1
    have hlt := (List.getElem?_eq_some_iff.1 hc).1
    rw [List.length_append, List.length_singleton] at hlt
    omega

end TreeNode

namespace Tree

structure Seated (t : Tree) (seats : List Seat) : Prop where
  size : seats.length = t.size
  arranged : Seat.Arranged seats
  sits : ∀ (i : Nat) node, t.nodes[i]? = some node → node.Sits seats i
  derives : ∀ owner node, t.Derives owner node ↔ ∃ seat, seats[node]? = some seat ∧
    seat.caller? = some owner

theorem seated_ofRoot (head : TreeHead) : (ofRoot head).Seated [.top] := by
  have hone : ∀ (i : Nat) seat, [Seat.top][i]? = some seat ↔ i = 0 ∧ seat = .top := by
    intro i seat
    cases i <;> simp [eq_comm]
  refine ⟨rfl, ⟨by simp [hone], ?_, by simp [hone]⟩, fun i node hi => ?_, fun owner node => ?_⟩
  · intro i seat o hi ho
    rw [((hone i seat).1 hi).2] at ho
    cases ho
  · have hnode : node = { head with } := by
      cases i with
      | zero => exact (Option.some.inj hi).symm
      | succ i => cases hi
    subst hnode
    refine ⟨fun seat hseat => ?_, by simp [hone], List.nodup_nil, by simp [hone]⟩
    rw [((hone i seat).1 hseat).2]
    rfl
  · simp [Derives, ofRoot, hone, Seat.caller?]

theorem Seated.gain {t t' : Tree} {seats : List Seat} {seat : Seat} (h : t.Seated seats)
    (hg : t.Gains t' seat) (hj : Seat.Joins seats seat) : t'.Seated (seats ++ [seat]) := by
  obtain ⟨head, hnew, hlabel⟩ := hg.new
  have harr := h.arranged.concat hj
  have hold := hg.old
  have hsize := hg.size
  have hderives := hg.derives
  rw [← h.size] at hnew hold hsize hderives
  refine ⟨by rw [List.length_append, hsize]; rfl, harr, fun i node hi => ?_, fun owner node => ?_⟩
  · have hlt : i < seats.length + 1 := hsize ▸ (Array.getElem?_eq_some_iff.1 hi).1
    rcases Nat.lt_succ_iff_lt_or_eq.1 hlt with hlt | rfl
    · rw [hold i hlt] at hi
      obtain ⟨old, hi', rfl⟩ := Option.map_eq_some_iff.1 hi
      exact (h.sits i old hi').concat hlt
    · rw [← Option.some.inj (hnew.symm.trans hi)]
      exact TreeNode.sits_new harr hlabel
  · rw [hderives, h.derives]
    simp only [Seat.getElem?_concat, or_and_right, exists_or]
    refine or_congr_right ⟨fun hc => ⟨seat, ⟨hc.1, rfl⟩, hc.2⟩, ?_⟩
    rintro ⟨_, ⟨hnode, rfl⟩, hcaller⟩
    exact ⟨hnode, hcaller⟩

end Tree

/-! ## Planting -/

namespace Sapling

/-- The nodes planted so far are in these seats, and each derivation has its arguments. -/
structure Seated (s : Sapling) (seats : List Seat) : Prop where
  tree : s.tree.Seated seats
  pending : s.pending.size = s.tree.derived.size

mutual

theorem seated_plantBody {owner : Nat} : ∀ (body : List Entry) {s : Sapling} {seats : List Seat},
    s.Seated seats → Seat.Proper seats owner →
    (plantBody owner body s).Seated (seats ++ Entry.seatsOf owner seats.length body)
  | [], s, seats, h, _ => by
    rw [plantBody, Entry.seatsOf, List.append_nil]
    exact h
  | e :: es, s, seats, h, howner => by
    rw [plantBody, Entry.seatsOf, ← List.append_assoc, ← List.length_append]
    exact seated_plantBody es (seated_plantEntry e h howner) (howner.append _)

theorem seated_plantEntry {owner : Nat} : ∀ (e : Entry) {s : Sapling} {seats : List Seat},
    s.Seated seats → Seat.Proper seats owner →
    (plantEntry owner e s).Seated (seats ++ e.seats owner seats.length)
  | .child (.node head body), s, seats, h, howner => by
    have hlt : owner < s.tree.size := h.tree.size ▸ howner.lt
    have hgain := h.tree.gain (Tree.gains_addChild hlt head) ⟨⟨owner, rfl, howner⟩, nofun⟩
    have hbody := seated_plantBody body (s := ⟨s.tree.addChild owner head, s.pending⟩) ⟨hgain, h.pending⟩
      ⟨_, List.getElem?_concat_length, rfl⟩
    rw [plantEntry, Entry.seats, ← h.tree.size]
    simpa using hbody
  | .derived false name args (.node head body), s, seats, h, howner => by
    have hgain := h.tree.gain (Tree.gains_addDerived _ owner name [] head) ⟨⟨owner, rfl, howner⟩, nofun⟩
    have hpending : (s.pending.push args).size = (s.tree.addDerived owner name [] head).derived.size := by
      simp [Tree.addDerived, Tree.push, h.pending]
    have hbody := seated_plantBody body
      (s := ⟨s.tree.addDerived owner name [] head, s.pending.push args⟩) ⟨hgain, hpending⟩ ⟨_, List.getElem?_concat_length, rfl⟩
    rw [plantEntry, Entry.seats, ← h.tree.size]
    simpa using hbody
  | .derived true name args (.node head body), s, seats, h, howner => by
    have hproxy := h.tree.gain (Tree.gains_push_proxy _ owner) ⟨⟨owner, rfl, howner⟩, nofun⟩
    have hgain := hproxy.gain (Tree.gains_addProxied _ owner name [] head) ⟨⟨owner, rfl, howner.append _⟩, by
      rintro _ ⟨⟩
      exact ⟨seats.length, by simp, List.getElem?_concat_length⟩⟩
    have hpending : (s.pending.push args).size = (s.tree.addProxied owner name [] head).derived.size := by
      simp [Tree.addProxied, Tree.update, Tree.addDerived, Tree.push, h.pending]
    have hbody := seated_plantBody body
      (s := ⟨s.tree.addProxied owner name [] head, s.pending.push args⟩) ⟨hgain, hpending⟩ ⟨_, List.getElem?_concat_length, rfl⟩
    rw [plantEntry, Entry.seats, ← h.tree.size]
    simpa using hbody

end

theorem seated_ofDeclaration (d : Declaration) : (ofDeclaration d).Seated d.seats := by
  obtain ⟨head, body⟩ := d
  have hroot : Seated { tree := .ofRoot head } [.top] := ⟨Tree.seated_ofRoot head, rfl⟩
  exact seated_plantBody body hroot ⟨.top, rfl, rfl⟩

end Sapling

/-! ## Arguments -/

mutual

/-- The nodes among arguments are such as have labels. -/
theorem Term.labelled_of_value {t : Tree} : ∀ {a : Term} {v : Value Nat}, a.value t = .ok v →
    ∀ m ∈ v.nodes, ∃ node, t.nodes[m]? = some node ∧ node.label ≠ none
  | .string _, _, h | .integer _, _, h | .bool _, _, h | .null, _, h | .any, _, h | .stream _, _, h => by
    rw [Term.value] at h
    cases h
    nofun
  | .ref label, v, h => by
    rw [Term.value] at h
    split at h
    · rename_i n hn
      cases h
      intro m hm
      obtain rfl : m = n := by simpa [Value.nodes] using hm
      obtain ⟨hlt, hlabel, -⟩ := Array.findIdx?_eq_some_iff_getElem.1 hn
      refine ⟨_, Array.getElem?_eq_getElem hlt, fun hnone => ?_⟩
      simp [hnone] at hlabel
    · cases h
  | .collection items, v, h => by
    simp only [Term.value, bind_eq_ok, pure_eq_ok] at h
    obtain ⟨vs, hvs, rfl⟩ := h
    exact Term.labelled_of_values hvs

theorem Term.labelled_of_values {t : Tree} : ∀ {as : List Term} {vs : List (Value Nat)},
    Term.values t as = .ok vs →
    ∀ m ∈ Value.nodesList vs, ∃ node, t.nodes[m]? = some node ∧ node.label ≠ none
  | [], _, h => by
    rw [Term.values] at h
    cases h
    nofun
  | a :: as, vs, h => by
    simp only [Term.values, bind_eq_ok, pure_eq_ok] at h
    obtain ⟨v, hv, vs, hvs, rfl⟩ := h
    intro m hm
    rcases List.mem_append.1 hm with hm | hm
    · exact Term.labelled_of_value hv m hm
    · exact Term.labelled_of_values hvs m hm

end

/-- The derivations stay, and get their arguments. -/
theorem Sapling.derivations_eq_ok {s : Sapling} (h : s.pending.size = s.tree.derived.size)
    {ds : List Derivation} (hds : s.derivations = .ok ds) :
    ds.map (fun d => (d.owner, d.node)) = s.tree.derived.toList.map (fun d => (d.owner, d.node)) ∧
      ∀ d ∈ ds, ∃ args, Term.values s.tree args = .ok d.args := by
  have hall := mapM_eq_ok hds
  have hfst : s.tree.derived.toList = (s.tree.derived.toList.zip s.pending.toList).map Prod.fst := by
    rw [List.map_fst_zip]
    simp [h]
  rw [hfst]
  clear hds hfst
  generalize s.tree.derived.toList.zip s.pending.toList = pairs at hall
  induction hall with
  | nil => exact ⟨rfl, nofun⟩
  | @cons x d xs ds hd _ ih =>
    simp only [bind_eq_ok, pure_eq_ok] at hd
    obtain ⟨vs, hvs, rfl⟩ := hd
    refine ⟨?_, List.forall_mem_cons.2 ⟨⟨x.2, hvs⟩, ih.2⟩⟩
    rw [List.map_cons, List.map_cons, List.map_cons, ih.1]

/-- A declaration's tree has its nodes in the seats of the declaration, and no call has a proxy among its
arguments. -/
structure Tree.Planted (t : Tree) (seats : List Seat) : Prop extends t.Seated seats where
  arguments : ∀ d ∈ t.derived, ∀ m ∈ Value.nodesList d.args, Seat.Proper seats m

theorem Declaration.planted {d : Declaration} {t : Tree} (h : d.plant = .ok t) : t.Planted d.seats := by
  simp only [Declaration.plant, bind_eq_ok, pure_eq_ok] at h
  obtain ⟨ds, hds, rfl⟩ := h
  have hs := Sapling.seated_ofDeclaration d
  obtain ⟨hends, hargs⟩ := Sapling.derivations_eq_ok hs.pending hds
  refine ⟨⟨hs.tree.size, hs.tree.arranged, hs.tree.sits, fun owner node => ?_⟩, fun e he m hm => ?_⟩
  · rw [← hs.tree.derives]
    have hmem : ∀ l : List Derivation, (∃ e ∈ l, e.owner = owner ∧ e.node = node) ↔
        (owner, node) ∈ l.map fun e => (e.owner, e.node) := by simp
    simp only [Tree.Derives, ← Array.mem_toList_iff, hmem, hends]
  · obtain ⟨args, hvalues⟩ := hargs e (by simpa using he)
    obtain ⟨node, hnode, hlabel⟩ := Term.labelled_of_values hvalues m hm
    have hlt : m < d.seats.length := hs.tree.size ▸ (Array.getElem?_eq_some_iff.1 hnode).1
    refine ⟨d.seats[m], List.getElem?_eq_getElem hlt, ?_⟩
    cases hseat : d.seats[m] with
    | proxy o =>
      -- A proxy has no label to refer to it by.
      refine absurd ((hs.tree.sits m node hnode).label o ?_) hlabel
      rw [List.getElem?_eq_getElem hlt, hseat]
    | _ => rfl

end Waymark
