import Waymark.Proofs.Snapshot.Sound
import Waymark.Snapshot.Recovery

/-!
# Spans do not depend on types

What a snapshot has learned about types, hooks and keys has no influence on the spans it finds, nor do
these searches number any type. An operation of this kind is called blind.
-/

namespace Waymark

variable {ν α β : Type}

def Slot.bare (slot : Slot ν) : Slot ν := { slot with tag := none, key := none }

namespace Snapshot

/-- The snapshots differ in no more than types, hooks and keys, and in what was noted. -/
structure SamePlaces (s t : Snapshot ν) : Prop where
  config : s.config = t.config
  slots : s.slots.map Slot.bare = t.slots.map Slot.bare
  interned : s.interned = t.interned

section
variable {s t u : Snapshot ν}

theorem SamePlaces.refl (s : Snapshot ν) : s.SamePlaces s := ⟨rfl, rfl, rfl⟩

theorem SamePlaces.trans (h : s.SamePlaces t) (h' : t.SamePlaces u) : s.SamePlaces u :=
  ⟨h.config.trans h'.config, h.slots.trans h'.slots, h.interned.trans h'.interned⟩

theorem SamePlaces.size (h : s.SamePlaces t) : s.size = t.size := by
  have hsize := congrArg Array.size h.slots
  simpa [Snapshot.size] using hsize

theorem SamePlaces.slot (h : s.SamePlaces t) (n : Node ν) : (s.slot n).bare = (t.slot n).bare := by
  have hget := congrArg (·[n.id]?) h.slots
  simp only [Array.getElem?_map] at hget
  unfold Snapshot.slot
  cases hs : s.slots[n.id]? with
  | none =>
    rw [hs] at hget
    rw [Option.map_eq_none_iff.1 hget.symm]
  | some x =>
    rw [hs] at hget
    obtain ⟨y, hy, hxy⟩ := Option.map_eq_some_iff.1 hget.symm
    rw [hy]
    exact hxy.symm

theorem map_bare_put (n : Node ν) {f : Slot ν → Slot ν} (hf : ∀ x, (f x).bare = f x.bare) :
    (s.put n f).slots.map Slot.bare = (s.slots.map Slot.bare).modify n.id f := by
  apply Array.ext_getElem?
  intro i
  rw [Array.getElem?_map, getElem?_put, Array.getElem?_modify, Array.getElem?_map]
  split
  · cases s.slots[i]? <;> simp [hf]
  · rfl

theorem SamePlaces.put (h : s.SamePlaces t) (n : Node ν) {f : Slot ν → Slot ν}
    (hf : ∀ x, (f x).bare = f x.bare) : (s.put n f).SamePlaces (t.put n f) := by
  refine ⟨h.config, ?_, h.interned⟩
  rw [map_bare_put n hf, map_bare_put n hf, h.slots]

/-- A change of no more than the type number and the key. -/
theorem samePlaces_put (s : Snapshot ν) (n : Node ν) {f : Slot ν → Slot ν} (hf : ∀ x, (f x).bare = x.bare) :
    s.SamePlaces (s.put n f) := by
  refine ⟨rfl, Array.ext_getElem? fun i => ?_, rfl⟩
  rw [Array.getElem?_map, Array.getElem?_map, getElem?_put]
  split
  · cases s.slots[i]? <;> simp [hf]
  · rfl

theorem SamePlaces.leadsTo [DecidableEq ν] (h : s.SamePlaces t) (n : Node ν) : ∀ (k : Nat) (p : Node ν),
    s.leadsTo n k p = t.leadsTo n k p
  | 0, _ => rfl
  | k + 1, p => by
    have hparent : (s.slot p).bare.parent = (t.slot p).bare.parent := congrArg Slot.parent (h.slot p)
    simp only [Slot.bare] at hparent
    rw [Snapshot.leadsTo, Snapshot.leadsTo, hparent]
    cases (t.slot p).parent with
    | node q =>
      simp only
      rw [h.leadsTo n k q]
    | top => rfl
    | unresolved => rfl

theorem SamePlaces.find? [DecidableEq ν] (h : s.SamePlaces t) (v : ν) : s.find? v = t.find? v := by
  unfold Snapshot.find?
  rw [h.interned]

end

end Snapshot

namespace Op

open Snapshot

/-- What is learned about types and keys does not influence the operation, and it numbers no type. -/
structure Blind (host : Host ν) (op : Op ν α) : Prop where
  same : ∀ s t, s.SamePlaces t → (op.exec host s).1 = (op.exec host t).1 ∧
    (op.exec host s).2.SamePlaces (op.exec host t).2
  types : ∀ s, (op.exec host s).2.types = s.types

section
variable {host : Host ν} {op : Op ν α} {f : α → Op ν β}

theorem Blind.pure (a : α) : Blind host (pure a) := ⟨fun _ _ h => ⟨rfl, h⟩, fun _ => rfl⟩

theorem Blind.throw (e : Fault) : Blind host (throw e : Op ν α) := ⟨fun _ _ h => ⟨rfl, h⟩, fun _ => rfl⟩

theorem Blind.bind (h : Blind host op) (hf : ∀ a, Blind host (f a)) : Blind host (op >>= f) := by
  constructor
  · intro s t hst
    obtain ⟨hres, hafter⟩ := h.same s t hst
    rw [exec_bind, exec_bind]
    generalize op.exec host s = x at hres hafter
    generalize op.exec host t = y at hres hafter
    obtain ⟨r, s'⟩ := x
    obtain ⟨r', t'⟩ := y
    subst hres
    cases r with
    | ok a => exact (hf a).same s' t' hafter
    | error e => exact ⟨rfl, hafter⟩
  · intro s
    have htypes := h.types s
    rw [exec_bind]
    generalize op.exec host s = x at htypes
    obtain ⟨r, s'⟩ := x
    cases r with
    | ok a => exact ((hf a).types s').trans htypes
    | error e => exact htypes

theorem Blind.ite {p : Prop} [Decidable p] {x y : Op ν α} (hx : Blind host x) (hy : Blind host y) :
    Blind host (if p then x else y) := by
  by_cases h : p
  · rw [if_pos h]
    exact hx
  · rw [if_neg h]
    exact hy

/-- Nothing of the snapshot is looked at but what blind operations may see. -/
theorem Blind.get_bind {f : Snapshot ν → Op ν β} (hview : ∀ s t : Snapshot ν, s.SamePlaces t → f s = f t)
    (hf : ∀ s, Blind host (f s)) : Blind host (get >>= f) := by
  constructor
  · intro s t hst
    have hrun : ∀ u : Snapshot ν, (get >>= f).exec host u = (f u).exec host u := fun _ => rfl
    rw [hrun, hrun, ← hview s t hst]
    exact (hf s).same s t hst
  · intro s
    exact (hf s).types s

theorem Blind.slot_bind {n : Node ν} {f : Slot ν → Op ν β} (hbare : ∀ x, f x = f x.bare)
    (hf : ∀ x, Blind host (f x)) : Blind host (slot n >>= f) := by
  refine Blind.get_bind (f := fun s => f (s.slot n)) ?_ fun s => hf (s.slot n)
  intro s t hst
  rw [hbare, hst.slot n, ← hbare]

theorem Blind.read_bind {f : Host ν → Op ν β} (hf : Blind host (f host)) : Blind host (read >>= f) :=
  ⟨hf.same, hf.types⟩

theorem Blind.typeName_bind {n : Node ν} {f : String → Op ν β}
    (hf : Blind host (f (host.typeName n.host))) : Blind host (typeName n >>= f) :=
  ⟨hf.same, hf.types⟩

theorem blind_note (e : Event) : Blind host (note e) :=
  ⟨fun _ _ h => ⟨rfl, h.config, h.slots, h.interned⟩, fun _ => rfl⟩

theorem blind_asked (q : Query ν) : Blind host (asked q) :=
  ⟨fun _ _ h => ⟨rfl, h.config, h.slots, h.interned⟩, fun _ => rfl⟩

theorem blind_answer (r : HostAnswer α) : Blind host (answer r) := by
  cases r with
  | ok a => exact .pure a
  | error m => exact .throw _

/-- A change of a slot that does not concern types or keys. -/
theorem Blind.update_bind {n : Node ν} {f : Slot ν → Slot ν} (hf : ∀ x, (f x).bare = f x.bare)
    (h : Blind host op) : Blind host (update n f >>= fun _ => op) :=
  Blind.bind ⟨fun _ _ h => ⟨rfl, h.put n hf⟩, fun _ => rfl⟩ fun _ => h

theorem blind_loopAt (n : Node ν) : Blind host (loopAt n : Op ν α) :=
  .typeName_bind ((blind_note _).bind fun _ => .throw _)

theorem blind_boundWalk (visited : Nat) (n : Node ν) : Blind host (boundWalk visited n) :=
  Blind.get_bind (fun _ _ h => by rw [h.size]) fun _ => .ite (blind_loopAt n) (.pure ())

theorem Blind.reach_bind {f : Nat → Op ν β} (hf : ∀ k, Blind host (f k)) : Blind host (reach >>= f) :=
  Blind.get_bind (f := fun s => do f (s.size + (← read).size + 1)) (fun _ _ h => by rw [h.size])
    fun s => .read_bind (hf (s.size + host.size + 1))

/-! ## Neighbours -/

theorem blind_childCount (n : Node ν) : Blind host (childCount n) := by
  apply Blind.slot_bind
  · intro x
    rfl
  · intro x
    cases x.children with
    | some cs => exact .pure _
    | none =>
      refine (blind_asked _).bind fun _ => .read_bind ((blind_answer _).bind fun count => ?_)
      exact .update_bind (fun _ => rfl) (.pure count)

variable [DecidableEq ν]

theorem blind_intern (v : ν) : Blind host (intern v) := by
  have hrun : ∀ s : Snapshot ν, (intern v).exec host s = (.ok (s.intern v).1, (s.intern v).2) :=
    fun _ => rfl
  constructor
  · intro s t hst
    rw [hrun, hrun]
    unfold Snapshot.intern
    rw [hst.find? v]
    cases t.find? v with
    | some n => exact ⟨rfl, hst⟩
    | none =>
      refine ⟨by rw [hst.size], hst.config, ?_, ?_⟩
      · simp only [Snapshot.extend, Array.map_push, hst.slots]
      · simp only [Snapshot.extend, hst.interned, hst.size]
  · intro s
    rw [hrun]
    unfold Snapshot.intern
    cases s.find? v <;> rfl

theorem blind_child (n : Node ν) (index : Nat) : Blind host (child n index) := by
  refine (blind_childCount n).bind fun count => .ite (.throw _) ?_
  apply Blind.slot_bind
  · intro x
    rfl
  · intro x
    cases x.children.bind fun cs => cs[index]?.join with
    | some c => exact .pure c
    | none =>
      refine (blind_asked _).bind fun _ => .read_bind ((blind_answer _).bind fun v => ?_)
      refine (blind_intern v).bind fun c => ?_
      exact .update_bind (fun _ => rfl) (.pure c)

theorem blind_link (n p : Node ν) : Blind host (link n p) := by
  refine Blind.get_bind ?_ ?_
  · intro s t hst
    rw [hst.size, hst.leadsTo]
  · intro s
    have link : Blind host (do
        update n fun s => { s with parent := .node p }
        return some p) := .update_bind (fun _ => rfl) (.pure _)
    exact .ite ((blind_loopAt n).bind fun _ => link) link

theorem blind_parent (n : Node ν) : Blind host (parent n) := by
  apply Blind.slot_bind
  · intro x
    rfl
  · intro x
    cases x.parent with
    | top => exact .pure _
    | node p => exact .pure _
    | unresolved =>
      refine (blind_asked _).bind fun _ => .read_bind ((blind_answer _).bind fun v => ?_)
      cases v with
      | none => exact .update_bind (fun _ => rfl) (.pure _)
      | some v => exact (blind_intern v).bind fun p => blind_link n p

/-! ## Spans -/

omit [DecidableEq ν] in
theorem blind_hostSpan (n : Node ν) : Blind host (hostSpan n) := by
  refine Blind.get_bind ?_ ?_
  · intro s t hst
    rw [hst.config]
  · intro s
    cases s.config.positions with
    | packed => exact (blind_asked _).bind fun _ => .read_bind (.pure _)
    | lineColumn => exact (blind_asked _).bind fun _ => .read_bind (.pure _)

omit [DecidableEq ν] in
theorem blind_rawSpan (n : Node ν) : Blind host (rawSpan n) := by
  apply Blind.slot_bind
  · intro x
    rfl
  · intro x
    cases x.rawSpan with
    | some span => exact .pure span
    | none =>
      refine (blind_hostSpan n).bind fun span => .typeName_bind ((blind_note _).bind fun _ => ?_)
      exact .update_bind (fun _ => rfl) (.pure _)

theorem blind_firstChild (n : Node ν) : Blind host (firstChild n) :=
  (blind_childCount n).bind fun _ => .ite ((blind_child n 0).bind fun c => .pure (some c)) (.pure none)

theorem blind_spanAbove : ∀ (fuel : Nat) (n : Node ν), Blind host (spanAbove fuel n)
  | 0, _ => .throw _
  | fuel + 1, n => by
    refine (blind_parent n).bind fun p => ?_
    cases p with
    | none => exact .pure _
    | some p => exact (blind_rawSpan p).bind fun span => .ite (.pure span) (blind_spanAbove fuel p)

theorem blind_spanBelow : ∀ (fuel visited : Nat) (n : Node ν), Blind host (spanBelow fuel visited n)
  | 0, _, _ => .throw _
  | fuel + 1, visited, n => by
    refine (blind_firstChild n).bind fun c => ?_
    cases c with
    | none => exact .pure _
    | some c =>
      refine (blind_boundWalk (visited + 1) c).bind fun _ => (blind_rawSpan c).bind fun span => ?_
      exact .ite (.pure span) (blind_spanBelow fuel (visited + 1) c)

theorem blind_stepUp (up : Option (Node ν)) : Blind host (stepUp up) := by
  cases up with
  | none => exact .pure _
  | some n =>
    refine (blind_parent n).bind fun p => ?_
    cases p with
    | none => exact .pure _
    | some p => exact (blind_rawSpan p).bind fun span => .pure _

theorem blind_stepDown (visited : Nat) (down : Option (Node ν)) : Blind host (stepDown visited down) := by
  cases down with
  | none => exact .pure _
  | some n =>
    refine (blind_firstChild n).bind fun c => ?_
    cases c with
    | none => exact .pure _
    | some c =>
      refine (blind_boundWalk (visited + 1) c).bind fun _ => ?_
      exact (blind_rawSpan c).bind fun span => .pure _

theorem blind_spanAround : ∀ (fuel visited : Nat) (up down : Option (Node ν)),
    Blind host (spanAround fuel visited up down)
  | 0, visited, up, down => by
    cases up <;> cases down <;> first | exact .pure _ | exact .throw _
  | fuel + 1, visited, up, down => by
    by_cases hnone : up = none ∧ down = none
    · obtain ⟨rfl, rfl⟩ := hnone
      exact .pure _
    rw [spanAround]
    · refine (blind_stepUp up).bind fun x => .ite (.pure _) ?_
      refine (blind_stepDown visited down).bind fun y => .ite (.pure _) ?_
      exact blind_spanAround fuel (visited + 1) x.1 y.1
    · exact fun hup hdown => hnone ⟨hup, hdown⟩

theorem blind_borrowedSpan (strategy : Recovery) (n : Node ν) : Blind host (borrowedSpan strategy n) := by
  have above : Blind host (do spanAbove (← reach) n) := .reach_bind fun k => blind_spanAbove k n
  have below : Blind host (do spanBelow (← reach) 1 n) := .reach_bind fun k => blind_spanBelow k 1 n
  cases strategy with
  | fail => exact .pure _
  | parent => exact above
  | child => exact below
  | parentThenChild => exact above.bind fun span => .ite (.pure span) below
  | childThenParent => exact below.bind fun span => .ite (.pure span) above
  | alternate => exact .reach_bind fun k => blind_spanAround k 1 (some n) (some n)

theorem blind_borrow (strategy : Recovery) (n : Node ν) : Blind host (borrow strategy n) := by
  refine (blind_borrowedSpan strategy n).bind fun span => .typeName_bind ?_
  exact (blind_note _).bind fun _ => .update_bind (fun _ => rfl) (.pure span)

theorem blind_spanWith (strategy : Recovery) (n : Node ν) : Blind host (spanWith strategy n) := by
  refine (blind_rawSpan n).bind fun raw => .ite (.pure raw) ?_
  apply Blind.slot_bind
  · intro x
    rfl
  · intro x
    cases x.recovered with
    | none => exact blind_borrow strategy n
    | some r => exact .ite (.pure r.2) (blind_borrow strategy n)

theorem blind_span (n : Node ν) : Blind host (span n) := by
  refine Blind.get_bind ?_ ?_
  · intro s t hst
    rw [hst.config]
  · exact fun s => blind_spanWith s.config.recovery n

end

end Op

end Waymark
