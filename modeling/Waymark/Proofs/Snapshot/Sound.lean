import Waymark.Proofs.Answers
import Waymark.Proofs.Op

/-!
# Sound snapshots

The arena of a snapshot is in order if every handle has one slot, the children, parents and type numbers in
the slots are those that the host tells, and the parents that are known do not go in a circle. This does not
depend on the settings, and walks need no more to end. A snapshot is sound if the spans and keys in its slots,
too, are those that the host tells under the settings it has now.
-/

namespace Waymark

open Relation

variable {ν : Type}

namespace Snapshot

/-! ## Soundness -/

def Linked (s : Snapshot ν) (n p : Node ν) : Prop := (s.slot n).parent = .node p

def Marks (s : Snapshot ν) : NodeKey → Mark → Prop
  | .type tag, .type name => s.types.name? tag = some name
  | .label a, .label b => a = b
  | _, _ => False

/-- What a slot says whatever the settings are. -/
structure SlotPlaced (host : Host ν) (s : Snapshot ν) (slot : Slot ν) : Prop where
  count : ∀ cs, slot.children = some cs → host.childCount slot.host = .ok cs.size
  child : ∀ cs i c, slot.children = some cs → cs[i]? = some (some c) →
    host.child slot.host i = .ok c.host ∧ s.Knows c
  top : slot.parent = .top → host.parent slot.host = .ok none
  parent : ∀ p, slot.parent = .node p → host.parent slot.host = .ok (some p.host) ∧ s.Knows p
  tag : ∀ tag, slot.tag = some tag → s.types.name? tag = some (host.typeName slot.host)

/-- What a slot says under the settings of the snapshot. -/
structure SlotSettled (host : Host ν) (s : Snapshot ν) (slot : Slot ν) : Prop where
  rawSpan : ∀ span, slot.rawSpan = some span → span = host.rawSpan s.config.positions slot.host
  key : ∀ k, slot.key = some k → s.Marks k (host.mark s.config.identify slot.host)

structure SlotSound (host : Host ν) (s : Snapshot ν) (slot : Slot ν) : Prop
    extends SlotPlaced host s slot, SlotSettled host s slot

structure Arena (host : Host ν) (s : Snapshot ν) : Prop where
  once : ∀ i j v, s.handle? i = some v → s.handle? j = some v → i = j
  interned : ∀ v i, (v, i) ∈ s.interned ↔ s.handle? i = some v
  root : s.Knows s.root
  placed : ∀ (i : Nat) slot, s.slots[i]? = some slot → SlotPlaced host s slot
  hooks : ∀ tag hook b, s.hooks.lookup (tag, hook) = some b →
    ∃ name, s.types.name? tag = some name ∧ b = host.supports name hook
  searchRoot : s.searchRoot.map s.types.name? = host.searchRoot.map some
  acyclic : ∀ n, ¬ TransGen s.Linked n n

structure Sound (host : Host ν) (s : Snapshot ν) : Prop extends Arena host s where
  settled : ∀ (i : Nat) slot, s.slots[i]? = some slot → SlotSettled host s slot

/-- No setting has a say in the arena. -/
theorem Arena.configure {host : Host ν} {s : Snapshot ν} (hs : s.Arena host) (config : Config) :
    Arena host { s with config } where
  once := hs.once
  interned := hs.interned
  root := hs.root
  placed i slot hi :=
    have h := hs.placed i slot hi
    ⟨h.count, h.child, h.top, h.parent, h.tag⟩
  hooks := hs.hooks
  searchRoot := hs.searchRoot
  acyclic := hs.acyclic

/-! ## Slots and numbers -/

theorem Knows.slot_mem {s : Snapshot ν} {n : Node ν} (h : s.Knows n) :
    s.slots[n.id]? = some (s.slot n) ∧ (s.slot n).host = n.host := by
  unfold Knows handle? at h
  obtain ⟨slot, hs, hh⟩ := Option.map_eq_some_iff.1 h
  simp [Snapshot.slot, hs, hh]

theorem Knows.placed {host : Host ν} {s : Snapshot ν} {n : Node ν} (h : s.Knows n)
    (hs : s.Arena host) : SlotPlaced host s (s.slot n) :=
  hs.placed _ _ h.slot_mem.1

theorem Knows.sound {host : Host ν} {s : Snapshot ν} {n : Node ν} (h : s.Knows n)
    (hs : s.Sound host) : SlotSound host s (s.slot n) :=
  ⟨h.placed hs.toArena, hs.settled _ _ h.slot_mem.1⟩

theorem Knows.lt_size {s : Snapshot ν} {n : Node ν} (h : s.Knows n) : n.id < s.size :=
  (Array.getElem?_eq_some_iff.1 h.slot_mem.1).1

/-- Nodes with the same number are the same. -/
theorem Knows.eq_of_id_eq {s : Snapshot ν} {m n : Node ν} (hm : s.Knows m) (hn : s.Knows n)
    (h : m.id = n.id) : m = n := by
  unfold Knows at hm hn
  rw [h, hn] at hm
  obtain ⟨i, v⟩ := m
  obtain ⟨j, w⟩ := n
  cases h; cases hm; rfl

/-- In a snapshot of up to `2 ^ 32` slots, nodes are told apart by the words of their numbers. -/
theorem Knows.eq_of_word_eq {s : Snapshot ν} {m n : Node ν} (hs : s.size ≤ UInt32.size) (hm : s.Knows m)
    (hn : s.Knows n) (h : m.id.toUInt32 = n.id.toUInt32) : m = n :=
  hm.eq_of_id_eq hn (toUInt32_inj hs hm.lt_size hn.lt_size h)

/-- A handle has one node. -/
theorem Arena.eq_of_host_eq {host : Host ν} {s : Snapshot ν} (hs : s.Arena host) {m n : Node ν}
    (hm : s.Knows m) (hn : s.Knows n) (h : m.host = n.host) : m = n :=
  hm.eq_of_id_eq hn (hs.once _ _ n.host (h ▸ hm) hn)

theorem Marks.mono {s t : Snapshot ν} {k : NodeKey} {m : Mark} (h : s.Marks k m) (hst : s ≤ t) :
    t.Marks k m := by
  cases k <;> cases m <;> first | exact hst.name? _ _ h | exact h

/-- Keys are equal if and only if they stand for the same mark. -/
theorem key_eq_iff {s : Snapshot ν} {j k : NodeKey} {m n : Mark} (hj : s.Marks j m) (hk : s.Marks k n) :
    j = k ↔ m = n := by
  cases j with
  | type a =>
    cases m with
    | label _ => cases hj
    | type x =>
      cases k with
      | label _ => cases n <;> simp_all [Marks]
      | type b =>
        cases n with
        | label _ => cases hk
        | type y =>
          simp only [Marks] at hj hk
          constructor
          · intro h; cases h; rw [hj] at hk; cases hk; rfl
          · intro h; cases h; rw [TypeRegistry.name?_inj hj hk]
  | label a =>
    cases m with
    | type _ => cases hj
    | label x =>
      cases k with
      | type _ => cases n <;> simp_all [Marks]
      | label b =>
        cases n with
        | type _ => cases hk
        | label y => simp_all [Marks]

theorem SlotPlaced.mono {host : Host ν} {s t : Snapshot ν} {slot : Slot ν} (h : SlotPlaced host s slot)
    (hst : s ≤ t) : SlotPlaced host t slot where
  count := h.count
  child cs i c hc hi := ⟨(h.child cs i c hc hi).1, (h.child cs i c hc hi).2.mono hst⟩
  top := h.top
  parent p hp := ⟨(h.parent p hp).1, (h.parent p hp).2.mono hst⟩
  tag t ht := hst.name? _ _ (h.tag t ht)

theorem SlotSettled.mono {host : Host ν} {s t : Snapshot ν} {slot : Slot ν} (h : SlotSettled host s slot)
    (hst : s ≤ t) : SlotSettled host t slot where
  rawSpan span hr := by rw [hst.config]; exact h.rawSpan span hr
  key k hk := by rw [hst.config]; exact (h.key k hk).mono hst

theorem slotSound_new {host : Host ν} {s : Snapshot ν} {v : ν} : SlotSound host s { host := v } :=
  ⟨⟨nofun, nofun, nofun, nofun, nofun⟩, nofun, nofun⟩

/-! ## Changing a slot -/

section
variable {s : Snapshot ν} {n : Node ν} {f : Slot ν → Slot ν}

theorem getElem?_put (i : Nat) :
    (s.put n f).slots[i]? = if n.id = i then s.slots[i]?.map f else s.slots[i]? :=
  Array.getElem?_modify

theorem handle?_put (hf : ∀ slot, (f slot).host = slot.host) (i : Nat) :
    (s.put n f).handle? i = s.handle? i := by
  unfold handle?
  rw [getElem?_put]
  split
  · cases s.slots[i]? <;> simp [hf]
  · rfl

theorem slot_put_of_ne {m : Node ν} (h : n.id ≠ m.id) : (s.put n f).slot m = s.slot m := by
  unfold slot
  rw [getElem?_put, if_neg h]

theorem slot_put_self (hn : s.Knows n) {m : Node ν} (h : n.id = m.id) :
    (s.put n f).slot m = f (s.slot n) := by
  unfold slot
  rw [getElem?_put, if_pos h, ← h, hn.slot_mem.1]
  rfl

theorem le_put (hf : ∀ slot, (f slot).host = slot.host) (hn : s.Knows n)
    (hp : ∀ p, (s.slot n).parent = .node p → (f (s.slot n)).parent = .node p) : s ≤ s.put n f := by
  refine ⟨rfl, rfl, rfl, fun i v h => ?_, fun _ _ h => h, fun m p h => ?_⟩
  · rw [handle?_put hf]
    exact h
  · by_cases hm : n.id = m.id
    · rw [slot_put_self hn hm]
      refine hp p ?_
      rw [slot, hm]
      cases hs : s.slots[m.id]? with
      | none => simp [slot, hs] at h
      | some slot => simpa [Snapshot.slot, hs] using h
    · rwa [slot_put_of_ne hm]

theorem linked_put (hf : ∀ slot, (f slot).parent = slot.parent) : (s.put n f).Linked = s.Linked := by
  funext m p
  unfold Linked slot
  rw [getElem?_put]
  split
  · cases s.slots[m.id]? <;> simp [hf]
  · rfl

/-- What is in the slots after the change was there before, or is the slot that was changed. -/
theorem getElem?_put_cases {i : Nat} {slot : Slot ν} (h : (s.put n f).slots[i]? = some slot) :
    s.slots[i]? = some slot ∨ ∃ old, s.slots[n.id]? = some old ∧ slot = f old := by
  rw [getElem?_put] at h
  split at h
  · rename_i he
    obtain ⟨old, ho, rfl⟩ := Option.map_eq_some_iff.1 h
    exact .inr ⟨old, he ▸ ho, rfl⟩
  · exact .inl h

theorem Arena.put {host : Host ν} (hs : s.Arena host) (hh : ∀ slot, (f slot).host = slot.host)
    (hle : s ≤ s.put n f)
    (hf : ∀ slot, s.slots[n.id]? = some slot → SlotPlaced host s (f slot))
    (hl : ∀ m, ¬ TransGen (s.put n f).Linked m m) : (s.put n f).Arena host where
  once i j v hi hj := by
    rw [handle?_put hh] at hi hj
    exact hs.once i j v hi hj
  interned v i := by
    rw [handle?_put hh]
    exact hs.interned v i
  root := Knows.mono hs.root hle
  placed i slot hi := by
    rcases getElem?_put_cases hi with hold | ⟨old, hold, rfl⟩
    · exact (hs.placed i slot hold).mono hle
    · exact (hf old hold).mono hle
  hooks := hs.hooks
  searchRoot := hs.searchRoot
  acyclic := hl

theorem Sound.put {host : Host ν} (hs : s.Sound host) (hh : ∀ slot, (f slot).host = slot.host)
    (hle : s ≤ s.put n f)
    (hf : ∀ slot, s.slots[n.id]? = some slot → SlotSound host s (f slot))
    (hl : ∀ m, ¬ TransGen (s.put n f).Linked m m) : (s.put n f).Sound host where
  toArena := hs.toArena.put hh hle (fun slot h => (hf slot h).toSlotPlaced) hl
  settled i slot hi := by
    rcases getElem?_put_cases hi with hold | ⟨old, hold, rfl⟩
    · exact (hs.settled i slot hold).mono hle
    · exact (hf old hold).toSlotSettled.mono hle

end

/-! ## New slots -/

/-- Handles are looked up where they are kept. -/
theorem Arena.find?_eq_some_iff [DecidableEq ν] {host : Host ν} {s : Snapshot ν} (hs : s.Arena host) {v : ν}
    {n : Node ν} : s.find? v = some n ↔ s.Knows n ∧ n.host = v := by
  have hentry : ∀ i, s.interned.lookup v = some i → s.handle? i = some v := by
    intro i hi
    obtain ⟨before, after, he, -⟩ := List.lookup_eq_some_iff.1 hi
    exact (hs.interned v i).1 (by simp [he])
  constructor
  · intro h
    obtain ⟨i, hi, rfl⟩ := Option.map_eq_some_iff.1 h
    exact ⟨hentry i hi, rfl⟩
  · rintro ⟨hn, rfl⟩
    cases hl : s.interned.lookup n.host with
    | none =>
      have hmem := (hs.interned n.host n.id).2 hn
      exact absurd (List.lookup_eq_none_iff.1 hl _ hmem) (by simp)
    | some i =>
      obtain rfl := hs.once i n.id n.host (hentry i hl) hn
      rw [find?, hl]
      rfl

theorem host_of_find? [DecidableEq ν] {s : Snapshot ν} {v : ν} {n : Node ν} (h : s.find? v = some n) :
    n.host = v := by
  obtain ⟨i, -, rfl⟩ := Option.map_eq_some_iff.1 h
  rfl

theorem Arena.handle?_ne_of_find? [DecidableEq ν] {host : Host ν} {s : Snapshot ν} (hs : s.Arena host) {v : ν}
    (h : s.find? v = none) (i : Nat) : s.handle? i ≠ some v := by
  intro hi
  rw [hs.find?_eq_some_iff (n := ⟨i, v⟩).2 ⟨hi, rfl⟩] at h
  cases h

section
variable {s : Snapshot ν} {v : ν}

theorem handle?_extend (i : Nat) :
    (s.extend v).handle? i = if i = s.size then some v else s.handle? i := by
  unfold handle? extend size
  rw [Array.getElem?_push]
  split <;> rfl

theorem mem_interned_extend {w : ν} {i : Nat} :
    (w, i) ∈ (s.extend v).interned ↔ w = v ∧ i = s.size ∨ (w, i) ∈ s.interned := by
  simp [extend]

theorem linked_extend : (s.extend v).Linked = s.Linked := by
  funext m p
  unfold Linked slot extend
  rw [Array.getElem?_push]
  split
  · rename_i h; simp [h]
  · rfl

theorem le_extend : s ≤ s.extend v := by
  refine ⟨rfl, rfl, rfl, fun i w h => ?_, fun _ _ h => h, fun n p h => ?_⟩
  · rw [handle?_extend, if_neg]
    · exact h
    · rintro rfl
      rw [handle?_eq_none_iff.2 (Nat.le_refl _)] at h
      cases h
  · exact (congrFun₂ linked_extend n p).mpr h

/-- What is in the slots afterwards was there before, or is the new slot. -/
theorem getElem?_extend_cases {i : Nat} {slot : Slot ν} (h : (s.extend v).slots[i]? = some slot) :
    s.slots[i]? = some slot ∨ slot = { host := v } := by
  simp only [extend, Array.getElem?_push] at h
  split at h
  · cases h
    exact .inr rfl
  · exact .inl h

theorem Arena.extend {host : Host ν} (hs : s.Arena host) (hv : ∀ i, s.handle? i ≠ some v) :
    (s.extend v).Arena host where
  once i j w hi hj := by
    rw [handle?_extend] at hi hj
    split at hi <;> split at hj
    · omega
    · cases hi; exact absurd hj (hv j)
    · cases hj; exact absurd hi (hv i)
    · exact hs.once i j w hi hj
  interned w i := by
    have hnone : s.handle? s.size = none := handle?_eq_none_iff.2 (Nat.le_refl _)
    rw [mem_interned_extend, hs.interned, handle?_extend]
    by_cases hi : i = s.size
    · subst hi
      simp [hnone, eq_comm]
    · simp [hi]
  root := hs.root.mono le_extend
  placed i slot hi := by
    rcases getElem?_extend_cases hi with hold | rfl
    · exact (hs.placed i slot hold).mono le_extend
    · exact slotSound_new.toSlotPlaced
  hooks := hs.hooks
  searchRoot := hs.searchRoot
  acyclic := by rw [linked_extend]; exact hs.acyclic

theorem Sound.extend {host : Host ν} (hs : s.Sound host) (hv : ∀ i, s.handle? i ≠ some v) :
    (s.extend v).Sound host where
  toArena := hs.toArena.extend hv
  settled i slot hi := by
    rcases getElem?_extend_cases hi with hold | rfl
    · exact (hs.settled i slot hold).mono le_extend
    · exact slotSound_new.toSlotSettled

end

end Snapshot

/-! ## Type names and hooks -/

namespace TypeRegistry

variable {r : TypeRegistry} {name : String}

/-- A name that was looked up is there, and what was there before has its number still. -/
theorem intern_spec (r : TypeRegistry) (name : String) :
    (r.intern name).2.name? (r.intern name).1 = some name ∧
      ∀ tag x, r.name? tag = some x → (r.intern name).2.name? tag = some x := by
  unfold intern
  split
  · rename_i tag h
    exact ⟨find?_eq_some_iff.1 h, fun _ _ hx => hx⟩
  · refine ⟨by simp [name?, push, size], fun tag x hx => ?_⟩
    have hlt : tag.index < r.names.size := (Array.getElem?_eq_some_iff.1 hx).1
    simp only [name?, push, Array.getElem?_push, Nat.ne_of_lt hlt, if_false]
    exact hx

end TypeRegistry

namespace Snapshot

/-- Only the numbers of names, the hooks and the journal differ. -/
theorem Sound.of_slots_eq {host : Host ν} {s t : Snapshot ν} (hs : s.Sound host) (hst : s ≤ t)
    (hslots : t.slots = s.slots) (hinterned : t.interned = s.interned)
    (hhooks : ∀ tag hook b, t.hooks.lookup (tag, hook) = some b →
      ∃ name, t.types.name? tag = some name ∧ b = host.supports name hook) : t.Sound host where
  once := by simpa only [handle?, hslots] using hs.once
  interned := by simpa only [handle?, hslots, hinterned] using hs.interned
  root := by rw [hst.root]; exact hs.root.mono hst
  placed i slot hi := (hs.placed i slot (hslots ▸ hi)).mono hst
  hooks := hhooks
  searchRoot := by
    rw [hst.searchRoot, ← hs.searchRoot]
    cases hr : s.searchRoot with
    | none => rfl
    | some tag =>
      have h := hs.searchRoot
      rw [hr] at h
      cases hn : host.searchRoot with
      | none => rw [hn] at h; cases h
      | some name =>
        rw [hn] at h
        simp only [Option.map_some, Option.some.injEq] at h ⊢
        rw [h, hst.name? tag name h]
  acyclic n h := by
    refine hs.acyclic n ?_
    have he : t.Linked = s.Linked := by funext m p; simp only [Linked, slot, hslots]
    rwa [he] at h
  settled i slot hi := (hs.settled i slot (hslots ▸ hi)).mono hst

theorem le_types (s : Snapshot ν) (name : String) :
    s ≤ { s with types := (s.types.intern name).2 } :=
  ⟨rfl, rfl, rfl, fun _ _ h => h, (s.types.intern_spec name).2, fun _ _ h => h⟩

theorem Sound.types_intern {host : Host ν} {s : Snapshot ν} (hs : s.Sound host) (name : String) :
    Sound host { s with types := (s.types.intern name).2 } := by
  refine hs.of_slots_eq (le_types s name) rfl rfl ?_
  intro tag hook b h
  obtain ⟨x, hx, hb⟩ := hs.hooks tag hook b h
  exact ⟨x, (s.types.intern_spec name).2 tag x hx, hb⟩

theorem le_hooks (s : Snapshot ν) (hooks : List ((TypeTag × Hook) × Bool)) :
    s ≤ { s with hooks } :=
  ⟨rfl, rfl, rfl, fun _ _ h => h, fun _ _ h => h, fun _ _ h => h⟩

theorem Sound.hooks_cons {host : Host ν} {s : Snapshot ν} (hs : s.Sound host) {tag : TypeTag}
    {hook : Hook} {name : String} (hn : s.types.name? tag = some name) :
    Sound host { s with hooks := ((tag, hook), host.supports name hook) :: s.hooks } := by
  refine hs.of_slots_eq (le_hooks s _) rfl rfl ?_
  intro tag' hook' b h
  rw [List.lookup_cons] at h
  split at h
  · rename_i he
    cases h
    cases beq_iff_eq.1 he
    exact ⟨name, hn, rfl⟩
  · exact hs.hooks tag' hook' b h

theorem Sound.journal {host : Host ν} {s : Snapshot ν} (hs : s.Sound host) (j : Journal ν) :
    Sound host { s with journal := j } :=
  hs.of_slots_eq (Op.le_journal s j) rfl rfl hs.hooks

/-! ## Fresh snapshots -/

theorem getElem?_ofRoot {config : Config} {host : Host ν} {root : ν} {i : Nat} {slot : Slot ν}
    (h : (ofRoot config host root).slots[i]? = some slot) : i = 0 ∧ slot = { host := root } := by
  cases i with
  | zero => exact ⟨rfl, (Option.some.inj h).symm⟩
  | succ i => cases h

theorem handle?_ofRoot {config : Config} {host : Host ν} {root : ν} {i : Nat} {v : ν} :
    (ofRoot config host root).handle? i = some v ↔ i = 0 ∧ v = root := by
  constructor
  · intro h
    obtain ⟨slot, hs, rfl⟩ := Option.map_eq_some_iff.1 h
    obtain ⟨rfl, rfl⟩ := getElem?_ofRoot hs
    exact ⟨rfl, rfl⟩
  · rintro ⟨rfl, rfl⟩
    rfl

theorem sound_ofRoot (config : Config) (host : Host ν) (root : ν) :
    (ofRoot config host root).Sound host where
  once i j v hi hj := (handle?_ofRoot.1 hi).1.trans (handle?_ofRoot.1 hj).1.symm
  interned v i := by
    rw [handle?_ofRoot, and_comm]
    simp [ofRoot]
  root := rfl
  placed i slot hi := by
    rw [(getElem?_ofRoot hi).2]
    exact slotSound_new.toSlotPlaced
  hooks := nofun
  searchRoot := by
    unfold ofRoot
    cases host.searchRoot with
    | none => rfl
    | some name => exact congrArg some (TypeRegistry.intern_spec {} name).1
  acyclic n h := by
    have none : ∀ m p, ¬ (ofRoot config host root).Linked m p := by
      intro m p hl
      unfold Linked slot ofRoot at hl
      cases hm : m.id <;> simp [hm] at hl
    obtain ⟨m, hl, -⟩ := TransGen.head'_iff.1 h
    exact none _ _ hl
  settled i slot hi := by
    rw [(getElem?_ofRoot hi).2]
    exact slotSound_new.toSlotSettled

/-! ## Known parents -/

theorem Arena.knows_of_linked {host : Host ν} {s : Snapshot ν} (hs : s.Arena host) {n p : Node ν}
    (h : s.Linked n p) : s.Knows p := by
  unfold Linked slot at h
  cases hn : s.slots[n.id]? with
  | none => simp [hn] at h
  | some slot => exact ((hs.placed _ _ hn).parent p (by simpa [hn] using h)).2

theorem Arena.knows_of_reaches {host : Host ν} {s : Snapshot ν} (hs : s.Arena host) {n p : Node ν}
    (hn : s.Knows n) (h : ReflTransGen s.Linked n p) : s.Knows p := by
  cases h with
  | refl => exact hn
  | tail _ hl => exact hs.knows_of_linked hl

theorem Arena.parents_of_reaches {host : Host ν} {s : Snapshot ν} (hs : s.Arena host) {n p : Node ν}
    (hn : s.Knows n) (h : ReflTransGen s.Linked n p) : ReflTransGen host.HasParent n.host p.host := by
  induction h with
  | refl => exact .refl
  | tail h hl ih =>
    have hk := hs.knows_of_reaches hn h
    have hp := ((hk.placed hs).parent _ hl).1
    rw [hk.slot_mem.2] at hp
    exact ih.tail hp

/-- Different nodes of a snapshot have different slots. -/
theorem length_le_size {s : Snapshot ν} {ns : List (Node ν)} (hd : ns.Nodup)
    (hk : ∀ n ∈ ns, s.Knows n) : ns.length ≤ s.size := by
  have hinj : ∀ m ∈ ns, ∀ n ∈ ns, m.id = n.id → m = n :=
    fun m hm n hn h => (hk m hm).eq_of_id_eq (hk n hn) h
  have hsub : ns.map Node.id ⊆ List.range s.size := by
    intro i hi
    obtain ⟨n, hn, rfl⟩ := List.mem_map.1 hi
    exact List.mem_range.2 (hk n hn).lt_size
  have hnd : (ns.map Node.id).Nodup := List.Nodup.map_on hinj hd
  simpa using (hnd.subperm hsub).length_le

/-- Every slot has a handle of its own. -/
theorem Arena.size_le {host : Host ν} {s : Snapshot ν} (hs : s.Arena host) {nodes : List ν}
    (h : ∀ i v, s.handle? i = some v → v ∈ nodes) : s.size ≤ nodes.length := by
  have hget : ∀ i : Nat, (s.slots.toList.map Slot.host)[i]? = s.handle? i := by simp [handle?]
  have hd : (s.slots.toList.map Slot.host).Nodup := by
    refine List.nodup_iff_getElem?_ne_getElem?.2 fun i j hij hj he => ?_
    rw [hget, hget] at he
    rw [List.length_map, Array.length_toList] at hj
    cases hi : s.handle? i with
    | none => exact absurd (handle?_eq_none_iff.1 hi) (Nat.not_le_of_lt (Nat.lt_trans hij hj))
    | some v => exact absurd (hs.once i j v hi (he.symm.trans hi)) (Nat.ne_of_lt hij)
  have hsub : s.slots.toList.map Slot.host ⊆ nodes := by
    intro v hv
    obtain ⟨i, hi⟩ := List.getElem?_of_mem hv
    exact h i v (hget i ▸ hi)
  simpa [size] using (hd.subperm hsub).length_le

/-- A walk up by known parents came through the nodes `seen`, the last one first, and is at `n`. -/
structure Climbs (s : Snapshot ν) (seen : List (Node ν)) (n : Node ν) : Prop where
  linked : ∀ m ∈ seen, TransGen s.Linked m n
  knows : ∀ m ∈ n :: seen, s.Knows m
  nodup : seen.Nodup

theorem Linked.mono {s t : Snapshot ν} {n p : Node ν} (h : s.Linked n p) (hst : s ≤ t) : t.Linked n p :=
  hst.parent n p h

section
variable {host : Host ν} {s t : Snapshot ν} {seen : List (Node ν)} {n p : Node ν}

theorem Climbs.first (hn : s.Knows n) : s.Climbs [] n :=
  ⟨by simp, by simpa using hn, List.nodup_nil⟩

theorem Climbs.mono (h : s.Climbs seen n) (hst : s ≤ t) : t.Climbs seen n :=
  ⟨fun m hm => TransGen.mono (fun _ _ hl => hl.mono hst) _ _ (h.linked m hm),
    fun m hm => (h.knows m hm).mono hst, h.nodup⟩

theorem Climbs.nodup_cons (h : s.Climbs seen n) (hs : s.Arena host) : (n :: seen).Nodup :=
  List.nodup_cons.2 ⟨fun hm => hs.acyclic n (h.linked n hm), h.nodup⟩

theorem Climbs.jump (h : s.Climbs seen n) (hs : s.Arena host) (hl : TransGen s.Linked n p) :
    s.Climbs (n :: seen) p where
  linked m hm := by
    rcases List.mem_cons.1 hm with rfl | hm
    · exact hl
    · exact (h.linked m hm).trans hl
  knows m hm := by
    rcases List.mem_cons.1 hm with rfl | hm
    · exact hs.knows_of_reaches (h.knows n (by simp)) hl.to_reflTransGen
    · exact h.knows m hm
  nodup := h.nodup_cons hs

theorem Climbs.next (h : s.Climbs seen n) (hs : s.Arena host) (hl : s.Linked n p) :
    s.Climbs (n :: seen) p :=
  h.jump hs (.single hl)

theorem Climbs.length_lt (h : s.Climbs seen n) (hs : s.Arena host) : seen.length < s.size :=
  length_le_size (h.nodup_cons hs) h.knows

end

inductive Leaves (s : Snapshot ν) (c : Node ν) : Nat → Node ν → Bool → Prop where
  | arrived {k : Nat} : Leaves s c (k + 1) c true
  | stopped {k : Nat} {p : Node ν} (hc : p ≠ c) (hp : ∀ q, ¬ s.Linked p q) : Leaves s c (k + 1) p false
  | up {k : Nat} {p q : Node ν} {b : Bool} (hc : p ≠ c) (hq : s.Linked p q) (h : Leaves s c k q b) :
    Leaves s c (k + 1) p b

theorem Leaves.iff {s : Snapshot ν} {c p : Node ν} {k : Nat} {b : Bool} (h : Leaves s c k p b) :
    b = true ↔ ReflTransGen s.Linked p c := by
  induction h with
  | arrived => exact ⟨fun _ => .refl, fun _ => rfl⟩
  | stopped hc hp =>
    refine ⟨nofun, fun h => ?_⟩
    rcases ReflTransGen.cases_head h with rfl | ⟨q, hq, -⟩
    · exact absurd rfl hc
    · exact absurd hq (hp q)
  | up hc hq _ ih =>
    rw [ih]
    refine ⟨fun h => .head hq h, fun h => ?_⟩
    rcases ReflTransGen.cases_head h with rfl | ⟨r, hr, h⟩
    · exact absurd rfl hc
    · have he : ParentLink.node r = .node _ := hr.symm.trans hq
      cases he
      exact h

section
variable [DecidableEq ν] {host : Host ν} {s : Snapshot ν}

-- The nodes that the walk came through are different, as links are acyclic.
theorem Arena.leaves_of_climbs (hs : s.Arena host) (c : Node ν) : ∀ (fuel : Nat) (p : Node ν)
    (seen : List (Node ν)), s.Climbs seen p → s.size < seen.length + fuel →
    Leaves s c fuel p (s.leadsTo c fuel p)
  | 0, p, seen, hc, hlen => by
    have h := hc.length_lt hs
    omega
  | fuel + 1, p, seen, hclimbs, hlen => by
    unfold leadsTo
    by_cases hc : p = c
    · subst hc
      simpa using Leaves.arrived
    · simp only [hc, decide_false, Bool.false_or]
      cases hp : (s.slot p).parent with
      | top => exact .stopped hc fun q hq => by simp [Linked, hp] at hq
      | unresolved => exact .stopped hc fun q hq => by simp [Linked, hp] at hq
      | node q =>
        have hq : s.Linked p q := hp
        refine .up hc hq (leaves_of_climbs hs c fuel q (p :: seen) (hclimbs.next hs hq) ?_)
        simp only [List.length_cons]
        omega

/-- The walk up is never cut short. -/
theorem Arena.leaves (hs : s.Arena host) {p : Node ν} (hp : s.Knows p) (c : Node ν) :
    Leaves s c (s.size + 1) p (s.leadsTo c (s.size + 1) p) :=
  hs.leaves_of_climbs c _ p [] (.first hp) (by simp)

end

/-- A link from `n` to `p` closes no circle if `p` does not lead to `n`. -/
theorem acyclic_put {host : Host ν} {s : Snapshot ν} (hs : s.Arena host) {n p : Node ν} (hn : s.Knows n)
    (hp : s.Knows p) (hpn : ¬ ReflTransGen s.Linked p n) (m : Node ν) :
    ¬ TransGen (s.put n fun slot => { slot with parent := .node p }).Linked m m := by
  -- Only known nodes are linked to, so one with the number of `n` is `n`.
  have hpn' : ∀ q, ReflTransGen s.Linked p q → n.id ≠ q.id := by
    intro q hq hid
    have hk := hs.knows_of_reaches hp hq
    exact hpn (hk.eq_of_id_eq hn hid.symm ▸ hq)
  have step : ∀ a b, (s.put n fun slot => { slot with parent := .node p }).Linked a b →
      (n.id = a.id ∧ b = p) ∨ (n.id ≠ a.id ∧ s.Linked a b) := by
    intro a b h
    unfold Linked at h
    by_cases hid : n.id = a.id
    · rw [slot_put_self hn hid] at h
      cases h
      exact .inl ⟨hid, rfl⟩
    · rw [slot_put_of_ne hid] at h
      exact .inr ⟨hid, h⟩
  have run : ∀ a b, TransGen (s.put n fun slot => { slot with parent := .node p }).Linked a b →
      TransGen s.Linked a b ∨
        ((∃ a', ReflTransGen s.Linked a a' ∧ n.id = a'.id) ∧ ReflTransGen s.Linked p b) := by
    intro a b h
    induction h with
    | single h =>
      rcases step _ _ h with ⟨hid, rfl⟩ | ⟨-, hl⟩
      · exact .inr ⟨⟨a, .refl, hid⟩, .refl⟩
      · exact .inl (.single hl)
    | tail _ h ih =>
      rcases step _ _ h with ⟨hid, rfl⟩ | ⟨-, hl⟩
      · rcases ih with ih | ⟨-, ih⟩
        · exact .inr ⟨⟨_, ih.to_reflTransGen, hid⟩, .refl⟩
        · exact absurd hid (hpn' _ ih)
      · rcases ih with ih | ⟨ha, ih⟩
        · exact .inl (ih.tail hl)
        · exact .inr ⟨ha, ih.tail hl⟩
  intro h
  rcases run m m h with h | ⟨⟨a, ha, hid⟩, h⟩
  · exact hs.acyclic m h
  · exact hpn' a (h.trans ha) hid

end Snapshot

end Waymark
