import Waymark.Proofs.Snapshot.Sound
import Waymark.Proofs.Span

/-!
# Two runs on a text that is moved

An operation is run twice, on a text and on the same text moved by some words. The two snapshots stay the
same but for spans, which are moved. `Moves` says this of one pair of runs, with a relation between their
results. Along the first run, what was found out about the spans of nodes stays.
-/

namespace Waymark

variable {ν : Type} {α β γ δ : Type}

namespace Host

def shift (c : UInt32) (host : Host ν) : Host ν :=
  { host with packedSpan := fun v => (host.packedSpan v).map (Span.shift c) }

/-- All spans are packed, and there is room for them after the move. -/
structure Shiftable (host : Host ν) (c : UInt32) (positions : Convention) : Prop where
  packed : positions = .lineColumn → ∀ v, host.lineColumns v = none
  hasRoom : ∀ v span, host.packedSpan v = some span → span.HasRoom c

section
variable {host : Host ν} {c : UInt32} {positions : Convention} (h : host.Shiftable c positions)
include h

theorem Shiftable.hasRoom_rawSpan (v : ν) : (host.rawSpan positions v).HasRoom c := by
  unfold rawSpan reportedSpan
  cases positions with
  | packed =>
    cases hv : host.packedSpan v with
    | none => exact Span.hasRoom_none
    | some span => exact h.hasRoom v span hv
  | lineColumn =>
    rw [h.packed rfl v]
    exact Span.hasRoom_none

theorem Shiftable.rawSpan_shift (v : ν) :
    (host.shift c).rawSpan positions v = (host.rawSpan positions v).shift c := by
  unfold rawSpan reportedSpan
  cases positions with
  | packed =>
    show ((host.packedSpan v).map (Span.shift c)).getD .none = ((host.packedSpan v).getD .none).shift c
    cases host.packedSpan v with
    | none => rfl
    | some span => rfl
  | lineColumn =>
    show ((host.lineColumns v).map _).getD .none = Span.shift c (((host.lineColumns v).map _).getD .none)
    rw [h.packed rfl v]
    rfl

end

end Host

namespace Slot

def shift (c : UInt32) (slot : Slot ν) : Slot ν :=
  { slot with
    rawSpan := slot.rawSpan.map (Span.shift c)
    recovered := slot.recovered.map fun r => (r.1, r.2.shift c) }

section
variable (c : UInt32) (slot : Slot ν)

@[simp] theorem shift_children : (slot.shift c).children = slot.children := rfl

@[simp] theorem shift_parent : (slot.shift c).parent = slot.parent := rfl

@[simp] theorem shift_tag : (slot.shift c).tag = slot.tag := rfl

@[simp] theorem shift_key : (slot.shift c).key = slot.key := rfl

end

structure HasRoom (c : UInt32) (slot : Slot ν) : Prop where
  rawSpan : ∀ span ∈ slot.rawSpan, span.HasRoom c
  recovered : ∀ r ∈ slot.recovered, r.2.HasRoom c

theorem hasRoom_new {c : UInt32} {v : ν} : HasRoom c { host := v } := ⟨nofun, nofun⟩

end Slot

namespace Snapshot

/-! ## Moved snapshots -/

/-- The second snapshot is the first one with all spans moved, for which the host has room. What was noted
does not matter. -/
structure Moved (c : UInt32) (host : Host ν) (s s' : Snapshot ν) : Prop where
  shiftable : host.Shiftable c s.config.positions
  config : s'.config = s.config
  root : s'.root = s.root
  slots : s'.slots = s.slots.map (Slot.shift c)
  interned : s'.interned = s.interned
  types : s'.types = s.types
  hooks : s'.hooks = s.hooks
  searchRoot : s'.searchRoot = s.searchRoot
  hasRoom : ∀ (i : Nat) slot, s.slots[i]? = some slot → slot.HasRoom c
  parents : ∀ (i : Nat) slot p, s.slots[i]? = some slot → slot.parent = .node p → p.id < s.size
  numbers : ∀ v i, (v, i) ∈ s.interned → i < s.size

def Spanned (s : Snapshot ν) (n : Node ν) (span : Span) : Prop :=
  ∃ raw, (s.slot n).rawSpan = some raw ∧
    if raw.isMeaningful then span = raw else (s.slot n).recovered = some (s.config.recovery, span)

structure Retains (s t : Snapshot ν) : Prop where
  config : t.config = s.config
  size : s.size ≤ t.size
  rawSpan : ∀ n span, (s.slot n).rawSpan = some span → (t.slot n).rawSpan = some span
  spanned : ∀ n span, s.Spanned n span → t.Spanned n span

theorem Retains.refl (s : Snapshot ν) : s.Retains s :=
  ⟨rfl, Nat.le_refl _, fun _ _ h => h, fun _ _ h => h⟩

theorem Retains.trans {s t u : Snapshot ν} (hst : s.Retains t) (htu : t.Retains u) : s.Retains u :=
  ⟨htu.config.trans hst.config, Nat.le_trans hst.size htu.size,
    fun n span h => htu.rawSpan n span (hst.rawSpan n span h),
    fun n span h => htu.spanned n span (hst.spanned n span h)⟩

section
variable {c : UInt32} {host : Host ν} {s s' t : Snapshot ν} {n m : Node ν}

theorem Moved.size (h : Moved c host s s') : s'.size = s.size := by
  simp [Snapshot.size, h.slots]

theorem Moved.slot (h : Moved c host s s') (n : Node ν) : s'.slot n = (s.slot n).shift c := by
  unfold Snapshot.slot
  rw [h.slots, Array.getElem?_map]
  cases s.slots[n.id]? <;> rfl

theorem Moved.hasRoom_slot (h : Moved c host s s') (n : Node ν) : (s.slot n).HasRoom c := by
  unfold Snapshot.slot
  cases hs : s.slots[n.id]? with
  | none => exact Slot.hasRoom_new
  | some slot => exact h.hasRoom n.id slot hs

theorem Moved.slot_parent (h : Moved c host s s') {p : Node ν} (hp : (s.slot n).parent = .node p) :
    p.id < s.size := by
  unfold Snapshot.slot at hp
  cases hs : s.slots[n.id]? with
  | none => simp [hs] at hp
  | some slot => exact h.parents n.id slot p hs (by simpa [hs] using hp)

theorem Moved.journal (h : Moved c host s s') (j j' : Journal ν) :
    Moved c host { s with journal := j } { s' with journal := j' } :=
  { h with }

theorem retains_of_slots_eq (hconfig : t.config = s.config) (hslots : t.slots = s.slots) : s.Retains t where
  config := hconfig
  size := by simp [Snapshot.size, hslots]
  rawSpan n span := by
    intro h
    unfold Snapshot.slot at h ⊢
    rwa [hslots]
  spanned n span := by
    intro h
    unfold Spanned Snapshot.slot at h ⊢
    rwa [hconfig, hslots]

/-! Nodes with the same number share their slot. -/

theorem rawSpan_congr (h : m.id = n.id) : (s.slot m).rawSpan = (s.slot n).rawSpan := by
  unfold Snapshot.slot
  rw [h]
  cases s.slots[n.id]? <;> rfl

theorem spanned_congr (h : m.id = n.id) {span : Span} : s.Spanned m span ↔ s.Spanned n span := by
  unfold Spanned Snapshot.slot
  rw [h]
  cases s.slots[n.id]? <;> rfl

theorem lt_size_of_rawSpan {span : Span} (h : (s.slot n).rawSpan = some span) : n.id < s.size := by
  by_contra hge
  unfold Snapshot.slot at h
  rw [Array.getElem?_eq_none (Nat.le_of_not_lt hge)] at h
  cases h

theorem size_extend (s : Snapshot ν) (v : ν) : (s.extend v).size = s.size + 1 := by
  simp [Snapshot.size, Snapshot.extend]

theorem size_put (s : Snapshot ν) (n : Node ν) (f : Slot ν → Slot ν) : (s.put n f).size = s.size := by
  simp [Snapshot.size, Snapshot.put]

theorem retains_extend (s : Snapshot ν) (v : ν) : s.Retains (s.extend v) := by
  have hslot : ∀ n span, (s.slot n).rawSpan = some span → (s.extend v).slot n = s.slot n := by
    intro n span hspan
    have hlt : n.id < s.slots.size := lt_size_of_rawSpan hspan
    unfold Snapshot.slot
    simp only [Snapshot.extend, Array.getElem?_push_lt hlt, Array.getElem?_eq_getElem hlt]
  refine ⟨rfl, by simp [size_extend], fun n span hspan => ?_, fun n span hspan => ?_⟩
  · rw [hslot n span hspan]
    exact hspan
  · obtain ⟨raw, hraw, hrest⟩ := hspan
    refine ⟨raw, ?_, ?_⟩ <;> rw [hslot n raw hraw]
    · exact hraw
    · exact hrest

theorem Spanned.unique {a b : Span} (ha : s.Spanned n a) (hb : s.Spanned n b) : a = b := by
  obtain ⟨raw, hraw, ha⟩ := ha
  obtain ⟨raw', hraw', hb⟩ := hb
  obtain rfl : raw = raw' := Option.some.inj (hraw.symm.trans hraw')
  by_cases hm : raw.isMeaningful = true
  · rw [if_pos hm] at ha hb
    exact ha.trans hb.symm
  · rw [if_neg hm] at ha hb
    rw [ha] at hb
    cases hb
    rfl

/-! ## Changing a slot -/

section
variable {f g : Slot ν → Slot ν}

theorem slot_put (hn : n.id < s.size) (h : m.id = n.id) : (s.put n f).slot m = f (s.slot m) := by
  unfold Snapshot.slot
  rw [getElem?_put, if_pos h.symm, h, Array.getElem?_eq_getElem hn]
  rfl

theorem spanned_put_of_ne (h : m.id ≠ n.id) {span : Span} :
    (s.put n f).Spanned m span ↔ s.Spanned m span := by
  unfold Spanned
  rw [slot_put_of_ne (Ne.symm h)]
  rfl

/-- What is kept about the span of the changed node has to stay, if it was known before. -/
theorem Retains.put (hst : s.Retains t)
    (hraw : ∀ span, (s.slot n).rawSpan = some span → ((t.put n f).slot n).rawSpan = some span)
    (h : ∀ span, s.Spanned n span → (t.put n f).Spanned n span) : s.Retains (t.put n f) where
  config := hst.config
  size := by rw [size_put]; exact hst.size
  rawSpan m span hm := by
    by_cases hid : m.id = n.id
    · rw [rawSpan_congr hid] at hm ⊢
      exact hraw span hm
    · rw [slot_put_of_ne (Ne.symm hid)]
      exact hst.rawSpan m span hm
  spanned m span hm := by
    by_cases hid : m.id = n.id
    · rw [spanned_congr hid] at hm ⊢
      exact h span hm
    · exact (spanned_put_of_ne hid).2 (hst.spanned m span hm)

theorem Moved.put (h : Moved c host s s') (hfg : ∀ slot, g (slot.shift c) = (f slot).shift c)
    (hroom : ∀ slot, s.slots[n.id]? = some slot → (f slot).HasRoom c)
    (hparent : ∀ slot p, s.slots[n.id]? = some slot → (f slot).parent = .node p → p.id < s.size) :
    Moved c host (s.put n f) (s'.put n g) where
  shiftable := h.shiftable
  config := h.config
  root := h.root
  slots := by
    refine Array.ext_getElem? fun i => ?_
    rw [Array.getElem?_map, getElem?_put, getElem?_put, h.slots, Array.getElem?_map]
    split
    · cases s.slots[i]? <;> simp [hfg]
    · rfl
  interned := h.interned
  types := h.types
  hooks := h.hooks
  searchRoot := h.searchRoot
  hasRoom i slot hi := by
    rcases getElem?_put_cases hi with hold | ⟨old, hold, rfl⟩
    · exact h.hasRoom i slot hold
    · exact hroom old hold
  parents i slot p hi hp := by
    rw [size_put]
    rcases getElem?_put_cases hi with hold | ⟨old, hold, rfl⟩
    · exact h.parents i slot p hold hp
    · exact hparent old p hold hp
  numbers v i hi := by
    rw [size_put]
    exact h.numbers v i hi

end

/-! ## Handles -/

variable [DecidableEq ν]

theorem Moved.find? (h : Moved c host s s') (v : ν) : s'.find? v = s.find? v := by
  unfold Snapshot.find?
  rw [h.interned]

theorem Moved.id_lt_of_find? (h : Moved c host s s') {v : ν} {n : Node ν} (hn : s.find? v = some n) :
    n.id < s.size := by
  obtain ⟨i, hi, rfl⟩ := Option.map_eq_some_iff.1 hn
  obtain ⟨before, after, he, -⟩ := List.lookup_eq_some_iff.1 hi
  exact h.numbers v i (by simp [he])

omit [DecidableEq ν] in
theorem Moved.extend (h : Moved c host s s') (v : ν) : Moved c host (s.extend v) (s'.extend v) := by
  refine { h with slots := ?_, interned := ?_, hasRoom := ?_, parents := ?_, numbers := ?_ }
  · simp only [Snapshot.extend, h.slots, Array.map_push]
    rfl
  · simp only [Snapshot.extend, h.interned, h.size]
  · intro i slot hi
    rcases getElem?_extend_cases hi with hold | rfl
    · exact h.hasRoom i slot hold
    · exact Slot.hasRoom_new
  · intro i slot p hi hp
    rw [size_extend]
    rcases getElem?_extend_cases hi with hold | rfl
    · exact Nat.lt_succ_of_lt (h.parents i slot p hold hp)
    · cases hp
  · intro w i hi
    rw [size_extend]
    rcases mem_interned_extend.1 hi with ⟨-, rfl⟩ | hold
    · exact Nat.lt_succ_self _
    · exact Nat.lt_succ_of_lt (h.numbers w i hold)

theorem Moved.intern (h : Moved c host s s') (v : ν) :
    (s'.intern v).1 = (s.intern v).1 ∧ Moved c host (s.intern v).2 (s'.intern v).2 ∧
      s.Retains (s.intern v).2 ∧ (s.intern v).1.id < (s.intern v).2.size := by
  unfold Snapshot.intern
  rw [h.find?]
  cases hv : s.find? v with
  | some n => exact ⟨rfl, h, .refl s, h.id_lt_of_find? hv⟩
  | none => exact ⟨by rw [h.size], h.extend v, retains_extend s v, by simp [size_extend]⟩

theorem Moved.leadsTo (h : Moved c host s s') (n : Node ν) : ∀ (k : Nat) (p : Node ν),
    s'.leadsTo n k p = s.leadsTo n k p
  | 0, _ => rfl
  | k + 1, p => by
    have hparent : (s'.slot p).parent = (s.slot p).parent := by
      rw [h.slot]
      rfl
    rw [Snapshot.leadsTo, Snapshot.leadsTo, hparent]
    cases (s.slot p).parent with
    | node q =>
      simp only
      rw [h.leadsTo n k q]
    | top => rfl
    | unresolved => rfl

end

end Snapshot

namespace Op

open Snapshot

/-! ## Two runs -/

/-- Two runs end alike after `s`: with the same fault, or with related results. -/
inductive EndAlike (c : UInt32) (host : Host ν) (s : Snapshot ν) (R : Snapshot ν → α → β → Prop) :
    Except Fault α × Snapshot ν → Except Fault β × Snapshot ν → Prop where
  | ok {t t' : Snapshot ν} {a : α} {b : β} (hm : Moved c host t t') (hr : s.Retains t) (h : R t a b) :
    EndAlike c host s R (.ok a, t) (.ok b, t')
  | error {t t' : Snapshot ν} {e : Fault} (hm : Moved c host t t') (hr : s.Retains t) :
    EndAlike c host s R (.error e, t) (.error e, t')

/-- Run on the text from `s`, and on the moved text from `s'`, the two operations end alike. -/
def Moves (c : UInt32) (host : Host ν) (s s' : Snapshot ν) (op : Op ν α) (op' : Op ν β)
    (R : Snapshot ν → α → β → Prop) : Prop :=
  EndAlike c host s R (op.exec host s) (op'.exec (host.shift c) s')

abbrev Steady (c : UInt32) (host : Host ν) (s s' : Snapshot ν) (op : Op ν α) : Prop :=
  Moves c host s s' op op fun _ a b => a = b

section
variable {c : UInt32} {host : Host ν} {s s' : Snapshot ν} {op : Op ν α} {op' : Op ν β}
variable {f : α → Op ν γ} {g : β → Op ν δ} {R R' : Snapshot ν → α → β → Prop}
variable {S : Snapshot ν → γ → δ → Prop}

theorem EndAlike.after {t : Snapshot ν} {r : Except Fault α × Snapshot ν}
    {r' : Except Fault β × Snapshot ν} (h : EndAlike c host t R r r') (hst : s.Retains t) :
    EndAlike c host s R r r' := by
  cases h with
  | ok hm hr h => exact .ok hm (hst.trans hr) h
  | error hm hr => exact .error hm (hst.trans hr)

theorem Moves.pure (h : Moved c host s s') {a : α} {b : β} (hR : R s a b) :
    Moves c host s s' (pure a) (pure b) R :=
  .ok h (.refl s) hR

theorem Moves.throw (h : Moved c host s s') {e : Fault} :
    Moves c host s s' (throw e : Op ν α) (throw e : Op ν β) R :=
  .error h (.refl s)

theorem Moves.mono (h : Moves c host s s' op op' R)
    (hR : ∀ t a b, s.Retains t → R t a b → R' t a b) : Moves c host s s' op op' R' := by
  unfold Moves at h ⊢
  generalize op.exec host s = r at h
  generalize op'.exec (host.shift c) s' = r' at h
  cases h with
  | ok hm hr h => exact .ok hm hr (hR _ _ _ hr h)
  | error hm hr => exact .error hm hr

theorem Moves.bind (h : Moves c host s s' op op' R)
    (hf : ∀ t t' a b, Moved c host t t' → s.Retains t → R t a b → Moves c host t t' (f a) (g b) S) :
    Moves c host s s' (op >>= f) (op' >>= g) S := by
  unfold Moves at h ⊢
  rw [exec_bind, exec_bind]
  generalize op.exec host s = r at h
  generalize op'.exec (host.shift c) s' = r' at h
  cases h with
  | ok hm hr h => exact (hf _ _ _ _ hm hr h).after hr
  | error hm hr => exact .error hm hr

theorem Steady.bind {op : Op ν α} {f : α → Op ν γ} {g : α → Op ν δ} (h : Steady c host s s' op)
    (hf : ∀ t t' a, Moved c host t t' → s.Retains t → Moves c host t t' (f a) (g a) S) :
    Moves c host s s' (op >>= f) (op >>= g) S := by
  refine Moves.bind h fun t t' a b ht hst hab => ?_
  subst hab
  exact hf t t' a ht hst

theorem Moves.ite {p p' : Prop} [Decidable p] [Decidable p'] {x y : Op ν α} {x' y' : Op ν β} (hp : p' ↔ p)
    (hx : p → Moves c host s s' x x' R) (hy : ¬ p → Moves c host s s' y y' R) :
    Moves c host s s' (if p then x else y) (if p' then x' else y') R := by
  by_cases h : p
  · rw [if_pos h, if_pos (hp.2 h)]
    exact hx h
  · rw [if_neg h, if_neg fun h' => h (hp.1 h')]
    exact hy h

/-! ## What snapshots keep and hosts answer -/

theorem Moves.get_bind {f : Snapshot ν → Op ν γ} {g : Snapshot ν → Op ν δ}
    (hf : Moves c host s s' (f s) (g s') S) : Moves c host s s' (get >>= f) (get >>= g) S := hf

theorem Moves.slot_bind (h : Moved c host s s') {n : Node ν} {f : Slot ν → Op ν γ} {g : Slot ν → Op ν δ}
    (hf : Moves c host s s' (f (s.slot n)) (g ((s.slot n).shift c)) S) :
    Moves c host s s' (slot n >>= f) (slot n >>= g) S := by
  rw [← h.slot] at hf
  exact hf

theorem Moves.read_bind {f : Host ν → Op ν γ} {g : Host ν → Op ν δ}
    (hf : Moves c host s s' (f host) (g (host.shift c)) S) :
    Moves c host s s' (read >>= f) (read >>= g) S := hf

theorem Moves.typeName_bind {n : Node ν} {f : String → Op ν γ} {g : String → Op ν δ}
    (hf : Moves c host s s' (f (host.typeName n.host)) (g (host.typeName n.host)) S) :
    Moves c host s s' (typeName n >>= f) (typeName n >>= g) S := hf

theorem Moves.reach_bind (h : Moved c host s s') {f : Nat → Op ν γ} {g : Nat → Op ν δ}
    (hf : ∀ k, Moves c host s s' (f k) (g k) S) : Moves c host s s' (reach >>= f) (reach >>= g) S := by
  have hk := hf (s.size + host.size + 1)
  have hright : (reach >>= g).exec (host.shift c) s' = (g (s'.size + host.size + 1)).exec (host.shift c) s' :=
    rfl
  unfold Moves at hk ⊢
  rw [hright, h.size]
  exact hk

theorem moves_note (h : Moved c host s s') (e e' : Event) :
    Moves c host s s' (note e) (note e') fun _ _ _ => True :=
  .ok (h.journal _ _) (retains_of_slots_eq rfl rfl) trivial

theorem moves_asked (h : Moved c host s s') (q q' : Query ν) :
    Moves c host s s' (asked q) (asked q') fun _ _ _ => True :=
  .ok (h.journal _ _) (retains_of_slots_eq rfl rfl) trivial

theorem Moves.note_bind (h : Moved c host s s') {e e' : Event} {x : Op ν γ} {y : Op ν δ}
    (hf : ∀ t t', Moved c host t t' → s.Retains t → Moves c host t t' x y S) :
    Moves c host s s' (note e >>= fun _ => x) (note e' >>= fun _ => y) S :=
  (moves_note h e e').bind fun t t' _ _ ht hst _ => hf t t' ht hst

theorem Moves.asked_bind (h : Moved c host s s') {q q' : Query ν} {x : Op ν γ} {y : Op ν δ}
    (hf : ∀ t t', Moved c host t t' → s.Retains t → Moves c host t t' x y S) :
    Moves c host s s' (asked q >>= fun _ => x) (asked q' >>= fun _ => y) S :=
  (moves_asked h q q').bind fun t t' _ _ ht hst _ => hf t t' ht hst

theorem steady_answer (h : Moved c host s s') (r : HostAnswer α) : Steady c host s s' (answer r) := by
  cases r with
  | ok a => exact Moves.pure h rfl
  | error m => exact Moves.throw h

/-- A change that does not concern spans. -/
theorem moves_update (h : Moved c host s s') {n : Node ν} {f : Slot ν → Slot ν}
    (hshift : ∀ slot, f (slot.shift c) = (f slot).shift c)
    (hspans : ∀ slot, (f slot).rawSpan = slot.rawSpan ∧ (f slot).recovered = slot.recovered)
    (hparent : ∀ slot p, (f slot).parent = .node p → slot.parent = .node p ∨ p.id < s.size) :
    Moves c host s s' (update n f) (update n f) fun _ _ _ => True := by
  have hm : Moved c host (s.put n f) (s'.put n f) := by
    refine h.put hshift (fun slot hs => ?_) fun slot p hs hp => ?_
    · have hroom := h.hasRoom n.id slot hs
      refine ⟨?_, ?_⟩
      · rw [(hspans slot).1]
        exact hroom.rawSpan
      · rw [(hspans slot).2]
        exact hroom.recovered
    · rcases hparent slot p hp with hp | hp
      · exact h.parents n.id slot p hs hp
      · exact hp
  have hslot : ((s.put n f).slot n).rawSpan = (s.slot n).rawSpan ∧
      ((s.put n f).slot n).recovered = (s.slot n).recovered := by
    unfold Snapshot.slot
    rw [getElem?_put, if_pos rfl]
    cases s.slots[n.id]? with
    | none => exact ⟨rfl, rfl⟩
    | some slot => exact hspans slot
  refine .ok hm ((Retains.refl s).put (fun span hspan => hslot.1.trans hspan) fun span hspan => ?_) trivial
  unfold Spanned at hspan ⊢
  rw [hslot.1, hslot.2]
  exact hspan

/-- A change that concerns neither spans nor the parent. -/
theorem steady_kept (h : Moved c host s s') {n : Node ν} {f : Slot ν → Slot ν} {a : α}
    (hshift : ∀ slot, f (slot.shift c) = (f slot).shift c)
    (hsame : ∀ slot, (f slot).rawSpan = slot.rawSpan ∧ (f slot).recovered = slot.recovered ∧
      (f slot).parent = slot.parent) :
    Steady c host s s' (do update n f; return a) := by
  refine (moves_update h hshift ?_ ?_).bind fun t t' _ _ ht _ _ => Moves.pure ht rfl
  · exact fun slot => ⟨(hsame slot).1, (hsame slot).2.1⟩
  · exact fun slot p hp => .inl ((hsame slot).2.2 ▸ hp)

theorem steady_loopAt (h : Moved c host s s') (n : Node ν) :
    Moves c host s s' (loopAt n : Op ν α) (loopAt n : Op ν β) R :=
  Moves.typeName_bind (Moves.note_bind h fun _ _ ht _ => Moves.throw ht)

theorem steady_boundWalk (h : Moved c host s s') (visited : Nat) (n : Node ν) :
    Steady c host s s' (boundWalk visited n) := by
  refine Moves.get_bind (Moves.ite (by rw [h.size]) (fun _ => steady_loopAt h n) fun _ => ?_)
  exact Moves.pure h rfl

/-! ## Neighbours -/

theorem steady_childCount (h : Moved c host s s') (n : Node ν) : Steady c host s s' (childCount n) := by
  refine Moves.slot_bind h ?_
  simp only [Slot.shift_children]
  cases (s.slot n).children with
  | some cs => exact Moves.pure h rfl
  | none =>
    refine Moves.asked_bind h fun t t' ht _ => Moves.read_bind ?_
    refine (steady_answer ht _).bind fun u u' count hu _ => ?_
    exact steady_kept hu (fun _ => rfl) fun _ => ⟨rfl, rfl, rfl⟩

theorem moves_mapM {f g : α → Op ν β} : ∀ (as : List α) {s s' : Snapshot ν}, Moved c host s s' →
    (∀ a ∈ as, ∀ t t', Moved c host t t' → s.Retains t → Moves c host t t' (f a) (g a) fun _ x y => x = y) →
    Moves c host s s' (as.mapM f) (as.mapM g) fun _ x y => x = y
  | [], _, _, h, _ => by
    rw [List.mapM_nil, List.mapM_nil]
    exact Moves.pure h rfl
  | a :: as, s, s', h, hf => by
    rw [List.mapM_cons, List.mapM_cons]
    refine (hf a (by simp) s s' h (.refl s)).bind fun t t' x y ht hst hxy => ?_
    subst hxy
    refine Moves.bind (moves_mapM as ht ?_) fun u u' xs ys hu _ hxs => Moves.pure hu (by rw [hxs])
    exact fun b hb u u' hu htu => hf b (by simp [hb]) u u' hu (hst.trans htu)

section
variable [DecidableEq ν]

theorem moves_intern (h : Moved c host s s') (v : ν) :
    Moves c host s s' (intern v) (intern v) fun t n m => n = m ∧ n.id < t.size := by
  obtain ⟨heq, hm, hr, hlt⟩ := h.intern v
  exact .ok hm hr ⟨heq.symm, hlt⟩

theorem steady_child (h : Moved c host s s') (n : Node ν) (index : Nat) :
    Steady c host s s' (child n index) := by
  refine (steady_childCount h n).bind fun t t' count ht _ => ?_
  refine Moves.ite .rfl (fun _ => Moves.throw ht) fun _ => ?_
  refine Moves.slot_bind ht ?_
  simp only [Slot.shift_children]
  cases (t.slot n).children.bind fun cs => cs[index]?.join with
  | some c => exact Moves.pure ht rfl
  | none =>
    refine Moves.asked_bind ht fun u u' hu _ => Moves.read_bind ?_
    refine (steady_answer hu _).bind fun x x' v hx _ => ?_
    refine (moves_intern hx v).bind fun y y' m m' hy _ hm => ?_
    obtain ⟨rfl, -⟩ := hm
    exact steady_kept hy (fun _ => rfl) fun _ => ⟨rfl, rfl, rfl⟩

theorem steady_children (h : Moved c host s s') (n : Node ν) : Steady c host s s' (children n) :=
  (steady_childCount h n).bind fun _ _ _ ht _ => moves_mapM _ ht fun i _ _ _ hu _ => steady_child hu n i

theorem moves_parent (h : Moved c host s s') (n : Node ν) :
    Moves c host s s' (parent n) (parent n) fun t p q => p = q ∧ ∀ m ∈ p, m.id < t.size := by
  refine Moves.slot_bind h ?_
  simp only [Slot.shift_parent]
  cases hp : (s.slot n).parent with
  | top => exact Moves.pure h ⟨rfl, by simp⟩
  | node p =>
    refine Moves.pure h ⟨rfl, fun m hm => ?_⟩
    cases hm
    exact h.slot_parent hp
  | unresolved =>
    refine Moves.asked_bind h fun t t' ht _ => Moves.read_bind ?_
    refine (steady_answer ht _).bind fun u u' v hu _ => ?_
    cases v with
    | none =>
      refine (moves_update hu ?_ ?_ ?_).bind fun x x' _ _ hx _ _ => Moves.pure hx ⟨rfl, by simp⟩
      · exact fun _ => rfl
      · exact fun _ => ⟨rfl, rfl⟩
      · rintro _ _ ⟨⟩
    | some v =>
      refine (moves_intern hu v).bind fun x x' m m' hx _ hm => ?_
      obtain ⟨rfl, hlt⟩ := hm
      refine Moves.get_bind ?_
      rw [hx.size, hx.leadsTo]
      refine Moves.ite .rfl (fun _ => steady_loopAt hx n) fun _ => ?_
      refine (moves_update hx ?_ ?_ ?_).bind fun y y' _ _ hy hxy _ => ?_
      · exact fun _ => rfl
      · exact fun _ => ⟨rfl, rfl⟩
      · intro slot p hp
        cases hp
        exact .inr hlt
      · refine Moves.pure hy ⟨rfl, fun q hq => ?_⟩
        cases hq
        exact Nat.lt_of_lt_of_le hlt hxy.size

end

/-! ## What identifies a node -/

theorem steady_internType (h : Moved c host s s') (name : String) : Steady c host s s' (internType name) := by
  have hright : (internType name : Op ν TypeTag).exec (host.shift c) s' =
      (.ok (s.types.intern name).1, { s' with types := (s.types.intern name).2 }) := by
    rw [← h.types]
    rfl
  unfold Steady Moves
  rw [hright]
  exact .ok { h with types := rfl } (retains_of_slots_eq rfl rfl) rfl

theorem steady_typeTag (h : Moved c host s s') (n : Node ν) : Steady c host s s' (typeTag n) := by
  refine Moves.slot_bind h ?_
  simp only [Slot.shift_tag]
  cases (s.slot n).tag with
  | some tag => exact Moves.pure h rfl
  | none =>
    refine Moves.typeName_bind ((steady_internType h _).bind fun t t' tag ht _ => ?_)
    exact steady_kept ht (fun _ => rfl) fun _ => ⟨rfl, rfl, rfl⟩

theorem steady_hasHook (h : Moved c host s s') (tag : TypeTag) (hook : Hook) :
    Steady c host s s' (hasHook tag hook) := by
  refine Moves.get_bind ?_
  rw [h.hooks, h.types]
  cases s.hooks.lookup (tag, hook) with
  | some b => exact Moves.pure h rfl
  | none =>
    refine Moves.asked_bind h fun t t' ht _ => Moves.read_bind ?_
    exact .ok { ht with hooks := by simp [ht.hooks]; rfl } (retains_of_slots_eq rfl rfl) rfl

theorem steady_label (h : Moved c host s s') (n : Node ν) : Steady c host s s' (label n) := by
  refine (steady_typeTag h n).bind fun t t' tag ht _ => ?_
  refine (steady_hasHook ht tag .label).bind fun u u' b hu _ => ?_
  refine Moves.ite .rfl (fun _ => ?_) fun _ => Moves.pure hu rfl
  exact Moves.asked_bind hu fun x x' hx _ => Moves.read_bind (Moves.pure hx rfl)

theorem steady_isExternal (h : Moved c host s s') (n : Node ν) : Steady c host s s' (isExternal n) := by
  refine (steady_typeTag h n).bind fun t t' tag ht _ => ?_
  refine (steady_hasHook ht tag .external).bind fun u u' b hu _ => ?_
  refine Moves.ite .rfl (fun _ => ?_) fun _ => Moves.pure hu rfl
  exact Moves.asked_bind hu fun x x' hx _ => Moves.read_bind (Moves.pure hx rfl)

theorem steady_key (h : Moved c host s s') (n : Node ν) : Steady c host s s' (key n) := by
  have keep : ∀ {t t' : Snapshot ν} (k : NodeKey), Moved c host t t' → Steady c host t t' (do
      update n fun s => { s with key := some k }
      return k) :=
    fun _ ht => steady_kept ht (fun _ => rfl) fun _ => ⟨rfl, rfl, rfl⟩
  refine Moves.slot_bind h ?_
  simp only [Slot.shift_key]
  cases (s.slot n).key with
  | some k => exact Moves.pure h rfl
  | none =>
    refine (steady_typeTag h n).bind fun t t' tag ht _ => Moves.get_bind ?_
    rw [ht.config]
    cases t.config.identify with
    | type => exact keep _ ht
    | label =>
      refine (steady_label ht n).bind fun u u' l hu _ => ?_
      cases l with
      | some l => exact keep _ hu
      | none => exact keep _ hu

end

end Op

end Waymark
