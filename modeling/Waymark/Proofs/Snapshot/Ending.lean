import Waymark.Proofs.Snapshot.History

/-!
# Requests come to an end

On any host, however its answers contradict each other, a request ends by itself if no call has a node
among its arguments. Where it fails, the host has given cause: a question failed, parents go in a circle,
or a walk down meets a node twice. The walks with a stack visit at most one node more than there are.
-/

namespace Waymark

open Relation

variable {ν : Type}

namespace Op

/-! ## More steps -/

/-- Where `op` does not run out of steps, `op'` does the same. -/
def Extends (host : Host ν) {α : Type} (op op' : Op ν α) : Prop :=
  ∀ s, (op.exec host s).1 ≠ .error .endless → op'.exec host s = op.exec host s

section
variable {host : Host ν} {α β : Type}

theorem Extends.refl (op : Op ν α) : Extends host op op := fun _ _ => rfl

theorem Extends.endless (op : Op ν α) : Extends host (throw .endless) op :=
  fun _ h => absurd rfl h

theorem Extends.bind {op op' : Op ν α} {f f' : α → Op ν β} (h : Extends host op op')
    (hf : ∀ a, Extends host (f a) (f' a)) : Extends host (op >>= f) (op' >>= f') := by
  intro s hs
  rw [exec_bind] at hs ⊢
  rw [exec_bind]
  have hop : (op.exec host s).1 ≠ .error .endless := by
    intro he
    cases hr : op.exec host s with
    | mk r t =>
      rw [hr] at he hs
      cases he
      exact hs rfl
  rw [h s hop]
  cases hr : op.exec host s with
  | mk r t =>
    rw [hr] at hs
    cases r with
    | ok a => exact hf a t hs
    | error e => rfl

theorem Extends.ite {c : Prop} [Decidable c] {op op' : Op ν α} {more more' : Op ν α}
    (h : Extends host op op') (h' : Extends host more more') :
    Extends host (if c then op else more) (if c then op' else more') := by
  by_cases hc : c
  · rw [if_pos hc, if_pos hc]
    exact h
  · rw [if_neg hc, if_neg hc]
    exact h'

/-- Two numbers of steps that are both enough make no difference. -/
theorem exec_eq_of_extends {op : Nat → Op ν α} (h : ∀ k l, k ≤ l → Extends host (op k) (op l)) {k l : Nat}
    {s : Snapshot ν} (hk : ((op k).exec host s).1 ≠ .error .endless)
    (hl : ((op l).exec host s).1 ≠ .error .endless) : (op k).exec host s = (op l).exec host s := by
  rcases Nat.le_total k l with hkl | hlk
  · exact (h k l hkl s hk).symm
  · exact h l k hlk s hl

end

section
variable [DecidableEq ν] {host : Host ν}

theorem extends_searchFrom (target : Target) (strict : Bool) (ignore : Option (Node ν)) :
    ∀ (k l visited : Nat) (stack : List (Node ν × Nat)) (best : Best (Node ν)), k ≤ l →
      Extends host (searchFrom target strict ignore k visited stack best)
        (searchFrom target strict ignore l visited stack best)
  | k, l, visited, [], best, _ => by
    rw [searchFrom, searchFrom]
    exact .refl _
  | 0, l, visited, (n, depth) :: stack, best, _ => .endless _
  | k + 1, 0, visited, (n, depth) :: stack, best, h => absurd h (Nat.not_succ_le_zero k)
  | k + 1, l + 1, visited, (n, depth) :: stack, best, h => by
    have ih := fun stack best =>
      extends_searchFrom target strict ignore k l (visited + 1) stack best (Nat.le_of_succ_le_succ h)
    have descend : ∀ best, Extends host
        (do searchFrom target strict ignore k (visited + 1)
              (← pushChildren n (depth + 1) (← childCount n) stack) best)
        (do searchFrom target strict ignore l (visited + 1)
              (← pushChildren n (depth + 1) (← childCount n) stack) best) := fun best =>
      Extends.bind (.refl _) fun _ => Extends.bind (.refl _) fun stack => ih stack best
    rw [searchFrom, searchFrom]
    refine Extends.bind (.refl _) fun _ => Extends.ite (ih stack best) ?_
    refine Extends.bind (.refl _) fun _ => Extends.ite (descend best) ?_
    refine Extends.bind (.refl _) fun _ => Extends.ite (ih stack best) ?_
    refine Extends.bind (.refl _) fun best => ?_
    exact Extends.ite (.refl _) (descend best)

theorem extends_hitsFrom (p : Position) : ∀ (k l visited : Nat) (stack : List (Node ν × Nat)), k ≤ l →
    Extends host (hitsFrom p k visited stack) (hitsFrom p l visited stack)
  | k, l, visited, [], _ => by
    rw [hitsFrom, hitsFrom]
    exact .refl _
  | 0, l, visited, (n, depth) :: stack, _ => .endless _
  | k + 1, 0, visited, (n, depth) :: stack, h => absurd h (Nat.not_succ_le_zero k)
  | k + 1, l + 1, visited, (n, depth) :: stack, h => by
    have ih := fun stack => extends_hitsFrom p k l (visited + 1) stack (Nat.le_of_succ_le_succ h)
    rw [hitsFrom, hitsFrom]
    refine Extends.bind (.refl _) fun _ => Extends.bind (.refl _) fun _ => Extends.ite (ih stack) ?_
    refine Extends.bind (.refl _) fun _ => Extends.bind (.refl _) fun _ => ?_
    exact Extends.bind (.refl _) fun stack => Extends.bind (ih stack) fun _ => .refl _

omit [DecidableEq ν] in
theorem exec_reach_bind {α : Type} (f : Nat → Op ν α) (s : Snapshot ν) :
    (reach >>= f).exec host s = (f (s.size + host.size + 1)).exec host s := by
  rw [exec_bind]
  rfl

theorem extends_nodesWithin (p : Position) (k l : Nat) (h : k ≤ l) :
    Extends host (nodesWithin k p) (nodesWithin l p) :=
  Extends.bind (.refl _) fun _ => Extends.bind (extends_hitsFrom p k l 0 _ h) fun _ => .refl _

/-- Where both numbers of steps are enough, the search finds the same. -/
theorem exec_bestMatch {target : Target} {strict : Bool} {ignore : Option (Node ν)} {n : Node ν} {k : Nat}
    {s : Snapshot ν}
    (hk : ((searchFrom target strict ignore k 0 [(n, 0)] {}).exec host s).1 ≠ .error .endless)
    (h : ((bestMatch n target strict ignore).exec host s).1 ≠ .error .endless) :
    (searchFrom target strict ignore k 0 [(n, 0)] {}).exec host s =
      (bestMatch n target strict ignore).exec host s := by
  rw [bestMatch, exec_reach_bind] at h ⊢
  exact exec_eq_of_extends (fun k l => extends_searchFrom target strict ignore k l 0 _ _) hk h

theorem exec_nodesAt {p : Position} {k : Nat} {s : Snapshot ν}
    (hk : ((nodesWithin k p).exec host s).1 ≠ .error .endless)
    (h : ((nodesAt p).exec host s).1 ≠ .error .endless) :
    (nodesWithin k p).exec host s = (nodesAt p).exec host s := by
  have hat : (nodesAt p).exec host s = (nodesWithin (s.size + host.size + 1) p).exec host s :=
    exec_reach_bind (fun k => nodesWithin k p) s
  rw [hat] at h ⊢
  exact exec_eq_of_extends (extends_nodesWithin p) hk h

end

/-- Where all ways down come to an end, none goes in a circle. -/
theorem not_circle_of_acc {r : ν → ν → Prop} {a v : ν} (h : Acc (fun c v => r v c) a)
    (hv : ReflTransGen r a v) : ¬ TransGen r v v := by
  have hacc : Acc (fun c v => r v c) v := by
    induction hv with
    | refl => exact h
    | tail _ hc ih => exact ih.inv hc
  clear hv
  induction hacc with
  | intro v _ ih =>
    intro hcircle
    obtain ⟨c, hvc, hcv⟩ := TransGen.head'_iff.1 hcircle
    exact ih c hvc (TransGen.tail' hcv hvc)

end Op

/-! ## Causes -/

def Fault.Justified (host : Host ν) : Fault → Prop
  | .loop _ => host.Tangled
  | .host message => host.Fails message
  | .childOutOfRange _ _ | .endless => False

namespace Snapshot

open Op

def scope (host : Host ν) (s : Snapshot ν) : Scope host where
  holds v := (∃ i, s.handle? i = some v) ∨ host.Mentions v
  mentioned _ h := .inr h
  least := s.size

theorem fewer_scope {host : Host ν} {s : Snapshot ν} (nodes : List ν) {k : Nat}
    (hs : ∀ i v, s.handle? i = some v → v ∈ nodes) (hm : ∀ v, host.Mentions v → v ∈ nodes)
    (hk : nodes.length < k) : (s.scope host).Fewer k := by
  refine ⟨nodes, hk, fun v hv => ?_⟩
  rcases hv with ⟨i, hi⟩ | hv
  · exact hs i v hi
  · exact hm v hv

theorem fewer_scope_reach (host : Host ν) (s : Snapshot ν) :
    (s.scope host).Fewer ((s.scope host).least + host.size + 1) := by
  obtain ⟨nodes, hlen, hmem⟩ := host.bounded
  refine fewer_scope (s.slots.toList.map Slot.host ++ nodes) (fun i v hi => ?_) (fun v hv => ?_) ?_
  · obtain ⟨slot, hslot, rfl⟩ := Option.map_eq_some_iff.1 hi
    have hm := Array.mem_toList_iff.2 (Array.mem_of_getElem? hslot)
    exact List.mem_append_left _ (List.mem_map_of_mem hm)
  · exact List.mem_append_right _ (hmem v hv)
  · simp only [List.length_append, List.length_map, Array.length_toList, scope, size]
    omega

theorem excuses_scope {host : Host ν} (hp : host.Plain) (s : Snapshot ν) :
    Excuses host (s.scope host) (Fault.Justified host) where
  failed _ h := h
  tangled _ h := h
  endless := .inr ⟨fewer_scope_reach host s, hp⟩

theorem Of.scoped {w : View ν} {s : Snapshot ν} (h : s.Of w (.all w.host)) :
    s.Of w (s.scope w.host) :=
  { h with holds := fun i _ hi => .inl ⟨i, hi⟩, least := Nat.le_refl _ }

end Snapshot

namespace Op

/-- The operation ends by itself, and it fails only if the host has given cause. -/
def EndsFairly {α : Type} (host : Host ν) (s : Snapshot ν) (op : Op ν α) : Prop :=
  ∀ e, (op.exec host s).1 = .error e → e.Justified host

section
variable {host : Host ν} {s : Snapshot ν} {α : Type} {op : Op ν α}

theorem EndsFairly.ne_endless (h : EndsFairly host s op) : (op.exec host s).1 ≠ .error .endless :=
  fun he => h _ he

theorem Keeps.endsFairly {w : View ν} (hs : s.Of w (.all w.host)) {Q : Snapshot ν → α → Prop}
    (h : Keeps w (s.scope w.host) (Fault.Justified w.host) s op Q) : EndsFairly w.host s op := by
  intro e he
  obtain ⟨-, -, hends⟩ := h s (le_refl s) hs.scoped
  cases hr : op.exec w.host s with
  | mk r t =>
    rw [hr] at he hends
    cases he
    exact hends

/-- Where no fault is excused, there is a result. -/
theorem Keeps.ends {w : View ν} (hs : s.Of w (.all w.host)) {Q : Snapshot ν → α → Prop}
    (h : Keeps w (s.scope w.host) (fun _ => False) s op Q) :
    ∃ a, (op.exec w.host s).1 = .ok a ∧ Q (op.exec w.host s).2 a := by
  obtain ⟨-, -, hends⟩ := h s (le_refl s) hs.scoped
  cases hr : op.exec w.host s with
  | mk r t =>
    rw [hr] at hends
    cases r with
    | ok a => exact ⟨a, rfl, hends⟩
    | error e => exact hends.elim

end

end Op

namespace Snapshot

open Op

variable [DecidableEq ν]

/-- Requests end by themselves and fail only for a cause. The two walks with a stack take as many steps as
there are nodes, and one more at most. A listing whose walk would go in a circle fails. -/
theorem History.requests_end (host : Host ν) (root : ν) (s : Snapshot ν) (h : s.History host root)
    (hp : host.Plain) :
    (∀ n, s.Knows n → (∀ strategy, EndsFairly host s (spanWith strategy n)) ∧
      (∀ target strict ignore, EndsFairly host s (bestMatch n target strict ignore)) ∧
      EndsFairly host s (locate n)) ∧
    (∀ steps, EndsFairly host s (resolveSteps steps)) ∧
    (∀ l, EndsFairly host s (resolve l)) ∧
    (∀ p, EndsFairly host s (nodesAt p)) ∧
    (∀ l levels, EndsFairly host s (subtree l levels)) ∧
    (∀ nodes : List ν, (∀ i v, s.handle? i = some v → v ∈ nodes) → (∀ v, host.Mentions v → v ∈ nodes) →
      (∀ n target strict ignore, s.Knows n →
        (searchFrom target strict ignore (nodes.length + 1) 0 [(n, 0)] {}).exec host s =
          (bestMatch n target strict ignore).exec host s) ∧
      ∀ p, (nodesWithin (nodes.length + 1) p).exec host s = (nodesAt p).exec host s) ∧
    (host.IsTree → ¬ host.Tangled) ∧
    ∀ p v, ReflTransGen (View.Opens ⟨host, s.config, root⟩ p) root v →
      TransGen (View.Opens ⟨host, s.config, root⟩ p) v v → ∃ e, ((nodesAt p).exec host s).1 = .error e := by
  let w : View ν := ⟨host, s.config, root⟩
  have hof : s.Of w (.all w.host) := h.of_all
  have hE : Excuses w.host (s.scope w.host) (Fault.Justified w.host) := excuses_scope hp s
  have best : ∀ n target strict ignore, s.Knows n → EndsFairly host s (bestMatch n target strict ignore) :=
    fun n target strict ignore hn => Keeps.endsFairly hof (keeps_bestMatch hE hn target strict ignore)
  have list : ∀ p, EndsFairly host s (nodesAt p) := fun p => Keeps.endsFairly hof (keeps_nodesAt hE p)
  refine ⟨fun n hn => ⟨fun strategy => ?_, fun target strict ignore => ?_, ?_⟩, fun steps => ?_, fun l => ?_,
    list, fun l levels => ?_, fun nodes hs hm => ⟨fun n target strict ignore hn => ?_, fun p => ?_⟩,
    fun ht => ht.not_tangled, fun p v hv hcircle => ?_⟩
  · exact Keeps.endsFairly hof (keeps_spanWith hE hn strategy)
  · exact best n target strict ignore hn
  · exact Keeps.endsFairly hof (keeps_locate hE hn)
  · exact Keeps.endsFairly hof (keeps_resolveSteps hE steps)
  · exact Keeps.endsFairly hof (keeps_resolve hE l)
  · exact Keeps.endsFairly hof (keeps_subtree hE l levels)
  · have hk : Enough (s.scope w.host) (Fault.Justified w.host) (nodes.length + 1) :=
      .inr (fewer_scope nodes hs hm (Nat.lt_succ_self _))
    have hwithin := Keeps.endsFairly hof (keeps_bestWithin hE hk hn target strict ignore)
    exact exec_bestMatch hwithin.ne_endless (best n target strict ignore hn).ne_endless
  · have hk : Enough (s.scope w.host) (Fault.Justified w.host) (nodes.length + 1) :=
      .inr (fewer_scope nodes hs hm (Nat.lt_succ_self _))
    have hwithin := Keeps.endsFairly hof (keeps_nodesWithin hE hk p)
    exact exec_nodesAt hwithin.ne_endless (list p).ne_endless
  · cases hr : (nodesAt p).exec host s with
    | mk r t =>
      cases r with
      | error e => exact ⟨e, rfl⟩
      | ok listing =>
        obtain ⟨-, -, hacc⟩ := keeps_nodesAt hE p s (le_refl s) hof.scoped
        rw [hr] at hacc
        exact absurd hcircle (not_circle_of_acc hacc hv)

def ring : Host Bool where
  size := 2
  childCount _ := .ok 1
  child v _ := .ok !v
  parent v := .ok (if v then none else some true)
  typeName v := if v then "Head" else "Tail"
  packedSpan _ := some ⟨1, 9⟩
  bounded := ⟨[true, false], by simp, fun v _ => by cases v <;> simp⟩

def ringAsked : Snapshot Bool := ((Request.typeTag true).op.exec ring (ofRoot {} ring true)).2

def headTarget : Target := ⟨.type ⟨0⟩, ⟨1, 9⟩, 2⟩

/-- A listing of the ring fails, as the walk meets a node twice. A search in it stops at the third step. -/
theorem History.requests_end_ring :
    (∃ e, ((nodesAt 3).exec ring ringAsked).1 = .error e ∧ e.Justified ring) ∧
      ((bestMatch ⟨0, true⟩ headTarget false none).exec ring ringAsked).1 = .error (.loop "Head") ∧
      ring.Tangled ∧
      (searchFrom headTarget false none 3 0 [(⟨0, true⟩, 0)] {}).exec ring ringAsked =
        (bestMatch ⟨0, true⟩ headTarget false none).exec ring ringAsked := by
  have h : ringAsked.History ring true := (History.fresh {}).request (.typeTag true)
  have hp : ring.Plain := by
    rintro m ⟨p, v, o, ho, -⟩
    cases ho
  have hknows : ringAsked.handle? 0 = some true := by cbv
  have hbest : ((bestMatch ⟨0, true⟩ headTarget false none).exec ring ringAsked).1 = .error (.loop "Head") := by
    cbv
  obtain ⟨hnode, -, -, hlist, -, hwithin, -, hcircle⟩ := History.requests_end ring true ringAsked h hp
  have hopens : ∀ v, View.Opens ⟨ring, ringAsked.config, true⟩ 3 v !v := by
    intro v
    refine ⟨?_, 0, 1, rfl, Nat.one_pos, rfl⟩
    cases v <;> decide +kernel
  obtain ⟨e, he⟩ := hcircle 3 true .refl (.tail (.single (hopens true)) (hopens false))
  refine ⟨⟨e, he, hlist 3 e he⟩, hbest, (hnode ⟨0, true⟩ hknows).2.1 headTarget false none _ hbest, ?_⟩
  refine (hwithin [true, false] ?_ ?_).1 ⟨0, true⟩ headTarget false none hknows
  · intro i v _
    cases v <;> simp
  · intro v _
    cases v <;> simp

end Snapshot

end Waymark
