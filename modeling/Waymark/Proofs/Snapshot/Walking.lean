import Waymark.Proofs.Snapshot.Sound

/-!
# Walks down

A walk down comes to each node by a way of its own. If it meets more nodes than there are slots, it has
met some node twice.
-/

namespace Waymark

open Relation

variable {ν : Type}

namespace Snapshot

/-- The walk down from `start` came to these nodes by these ways, which are all different. -/
structure Visited (host : Host ν) (s : Snapshot ν) (start : ν) (seen : List (List Nat × Node ν)) : Prop where
  way : ∀ x ∈ seen, host.Way start x.1 x.2.host
  knows : ∀ x ∈ seen, s.Knows x.2
  nodup : (seen.map Prod.fst).Nodup

section
variable {host : Host ν} {s t : Snapshot ν} {start : ν} {seen stack : List (List Nat × Node ν)}

theorem Visited.mono (h : Visited host s start seen) (hst : s ≤ t) : Visited host t start seen :=
  ⟨h.way, fun x hx => (h.knows x hx).mono hst, h.nodup⟩

/-- More nodes than slots: two ways lead to the same node. -/
theorem Visited.twice (h : Visited host s start seen) (hlt : s.size < seen.length) :
    ∃ v path path', path ≠ path' ∧ host.Way start path v ∧ host.Way start path' v := by
  have hdup : ¬ (seen.map Prod.snd).Nodup := by
    intro hd
    have hle := length_le_size hd (s := s) fun n hn => by
      obtain ⟨x, hx, rfl⟩ := List.mem_map.1 hn
      exact h.knows x hx
    rw [List.length_map] at hle
    omega
  by_contra hno
  refine hdup (List.Nodup.map_on (fun x hx y hy hxy => ?_) (List.Nodup.of_map _ h.nodup))
  by_cases hne : x.1 = y.1
  · exact Prod.ext hne hxy
  · exact absurd ⟨x.2.host, x.1, y.1, hne, h.way x hx, hxy ▸ h.way y hy⟩ hno

theorem Visited.meetsTwice (h : Visited host s start seen) (hlt : s.size < seen.length) : host.MeetsTwice :=
  ⟨start, h.twice hlt⟩

/-- The walk has come through `seen` and has the nodes on the stack still to go to. No way on the stack
leads on from another one there, or back to one that was taken. -/
structure Sweeps (host : Host ν) (s : Snapshot ν) (start : ν) (seen stack : List (List Nat × Node ν)) :
    Prop where
  visited : Visited host s start seen
  way : ∀ x ∈ stack, host.Way start x.1 x.2.host
  knows : ∀ x ∈ stack, s.Knows x.2
  apart : stack.Pairwise fun x y => ¬ x.1 <:+ y.1 ∧ ¬ y.1 <:+ x.1
  fresh : ∀ x ∈ stack, ∀ y ∈ seen, ¬ x.1 <:+ y.1

theorem Sweeps.mono (h : Sweeps host s start seen stack) (hst : s ≤ t) : Sweeps host t start seen stack :=
  { h with visited := h.visited.mono hst, knows := fun x hx => (h.knows x hx).mono hst }

theorem Sweeps.first {n : Node ν} (hn : s.Knows n) : Sweeps host s n.host [] [([], n)] where
  visited := ⟨by simp, by simp, List.nodup_nil⟩
  way x hx := by
    rw [List.mem_singleton.1 hx]
    exact .here
  knows x hx := by
    rw [List.mem_singleton.1 hx]
    exact hn
  apart := List.pairwise_singleton _ _
  fresh := by simp

variable {x : List Nat × Node ν}

theorem Sweeps.visit (h : Sweeps host s start seen (x :: stack)) : Visited host s start (x :: seen) where
  way y hy := by
    rcases List.mem_cons.1 hy with rfl | hy
    · exact h.way y (by simp)
    · exact h.visited.way y hy
  knows y hy := by
    rcases List.mem_cons.1 hy with rfl | hy
    · exact h.knows y (by simp)
    · exact h.visited.knows y hy
  nodup := by
    refine List.nodup_cons.2 ⟨fun hm => ?_, h.visited.nodup⟩
    obtain ⟨y, hy, he⟩ := List.mem_map.1 hm
    exact h.fresh x (by simp) y hy (he ▸ List.suffix_rfl)

/-- The node on top is passed over. -/
theorem Sweeps.pass (h : Sweeps host s start seen (x :: stack)) :
    Sweeps host s start (x :: seen) stack where
  visited := h.visit
  way y hy := h.way y (by simp [hy])
  knows y hy := h.knows y (by simp [hy])
  apart := (List.pairwise_cons.1 h.apart).2
  fresh y hy z hz := by
    rcases List.mem_cons.1 hz with rfl | hz
    · exact ((List.pairwise_cons.1 h.apart).1 y hy).2
    · exact h.fresh y (by simp [hy]) z hz

def waysTo (path : List Nat) (cs : List (Node ν)) : List (List Nat × Node ν) :=
  cs.mapIdx fun i c => (i :: path, c)

theorem mem_waysTo {path : List Nat} {cs : List (Node ν)} {y : List Nat × Node ν} :
    y ∈ waysTo path cs ↔ ∃ i : Nat, cs[i]? = some y.2 ∧ y.1 = i :: path := by
  rw [waysTo, List.mem_mapIdx]
  constructor
  · rintro ⟨i, hi, rfl⟩
    exact ⟨i, List.getElem?_eq_getElem hi, rfl⟩
  · rintro ⟨i, hi, hp⟩
    obtain ⟨hlt, he⟩ := List.getElem?_eq_some_iff.1 hi
    exact ⟨i, hlt, Prod.ext hp.symm he⟩

/-- The node on top is gone into: its children take its place. -/
theorem Sweeps.enter (h : Sweeps host s start seen (x :: stack)) {cs : List (Node ν)}
    (hcs : ∀ (i : Nat) c, cs[i]? = some c → host.Lists x.2.host i c.host ∧ s.Knows c) :
    Sweeps host s start (x :: seen) (waysTo x.1 cs ++ stack) := by
  have hpass := h.pass
  have hapart := (List.pairwise_cons.1 h.apart).1
  -- A way that leads on from a child leads on from the node.
  have hlong : ∀ (i : Nat) (path : List Nat), (i :: x.1) <:+ path → x.1 <:+ path := fun i path hs =>
    (List.suffix_cons i x.1).trans hs
  refine ⟨hpass.visited, fun y hy => ?_, fun y hy => ?_, ?_, fun y hy z hz => ?_⟩
  · rcases List.mem_append.1 hy with hy | hy
    · obtain ⟨i, hi, hp⟩ := mem_waysTo.1 hy
      rw [hp]
      exact .down (h.way x (by simp)) (hcs i y.2 hi).1
    · exact hpass.way y hy
  · rcases List.mem_append.1 hy with hy | hy
    · obtain ⟨i, hi, -⟩ := mem_waysTo.1 hy
      exact (hcs i y.2 hi).2
    · exact hpass.knows y hy
  · refine List.pairwise_append.2 ⟨?_, hpass.apart, fun y hy z hz => ?_⟩
    · refine List.pairwise_iff_getElem.2 fun i j hi hj hij => ?_
      simp only [waysTo, List.getElem_mapIdx]
      constructor
      · intro hs
        exact absurd (List.cons.inj (hs.eq_of_length (by simp))).1 (Nat.ne_of_lt hij)
      · intro hs
        exact absurd (List.cons.inj (hs.eq_of_length (by simp))).1 (Nat.ne_of_gt hij)
    · obtain ⟨i, -, hp⟩ := mem_waysTo.1 hy
      rw [hp]
      refine ⟨fun hs => (hapart z hz).1 (hlong i _ hs), fun hs => ?_⟩
      rcases List.suffix_cons_iff.1 hs with he | hs
      · exact (hapart z hz).1 (he ▸ List.suffix_cons i x.1)
      · exact (hapart z hz).2 hs
  · rcases List.mem_append.1 hy with hy | hy
    · obtain ⟨i, -, hp⟩ := mem_waysTo.1 hy
      rw [hp]
      intro hs
      rcases List.mem_cons.1 hz with rfl | hz
      · exact absurd hs.length_le (by simp)
      · exact h.fresh x (by simp) z hz (hlong i _ hs)
    · exact hpass.fresh y hy z hz

/-! ## By first children -/

variable {D : ν → Prop}

def Descends (host : Host ν) (D : ν → Prop) (s : Snapshot ν) (k : Nat) (n : Node ν) : Prop :=
  k < s.size ∧ ∃ seen, seen.length = k ∧
    (n :: seen).Pairwise (fun m u => TransGen host.HasFirst u.host m.host) ∧
    ∀ m ∈ n :: seen, s.Knows m ∧ D m.host

variable {n c : Node ν} {k : Nat}

theorem Descends.first (hn : s.Knows n) (hD : D n.host) : Descends host D s 0 n := by
  obtain ⟨slot, hslot, -⟩ := Option.map_eq_some_iff.1 hn
  have hlt := (Array.getElem?_eq_some_iff.1 hslot).1
  exact ⟨Nat.zero_lt_of_lt hlt, [], rfl, List.pairwise_singleton _ _, by simpa using ⟨hn, hD⟩⟩

theorem Descends.mono (h : Descends host D s k n) (hst : s ≤ t) : Descends host D t k n := by
  obtain ⟨hlt, seen, hlen, hseen, hk⟩ := h
  exact ⟨Nat.lt_of_lt_of_le hlt (size_mono hst), seen, hlen, hseen,
    fun m hm => ⟨(hk m hm).1.mono hst, (hk m hm).2⟩⟩

theorem Descends.knows (h : Descends host D s k n) : s.Knows n ∧ D n.host := by
  obtain ⟨-, seen, -, -, hk⟩ := h
  exact hk n (by simp)

/-- The next node is within the bound, or the walk goes in a circle. -/
theorem Descends.next (h : Descends host D s k n) (hl : host.HasFirst n.host c.host) (hc : s.Knows c)
    (hD : D c.host) : (s.size < k + 2 → ∃ v, D v ∧ TransGen host.HasFirst v v) ∧
      (k + 2 ≤ s.size → Descends host D s (k + 1) c) := by
  obtain ⟨-, seen, rfl, hseen, hk⟩ := h
  have hall : ∀ m ∈ c :: n :: seen, s.Knows m ∧ D m.host := List.forall_mem_cons.2 ⟨⟨hc, hD⟩, hk⟩
  have hnext : (c :: n :: seen).Pairwise (fun m u => TransGen host.HasFirst u.host m.host) := by
    refine List.pairwise_cons.2 ⟨fun m hm => ?_, hseen⟩
    rcases List.mem_cons.1 hm with rfl | hm
    · exact .single hl
    · exact ((List.pairwise_cons.1 hseen).1 m hm).tail hl
  refine ⟨fun hlt => ?_, fun hle => ⟨hle, n :: seen, rfl, hnext, hall⟩⟩
  by_contra hno
  -- With no circle the nodes are all different, and there are no more of them than slots.
  have hd : (c :: n :: seen).Nodup := by
    refine List.Pairwise.imp_of_mem (fun {m u} _ hu hmu he => hno ?_) hnext
    rw [he] at hmu
    exact ⟨u.host, (hall u hu).2, hmu⟩
  have hle := length_le_size hd fun m hm => (hall m hm).1
  simp only [List.length_cons] at hle
  omega

end

end Snapshot

end Waymark
