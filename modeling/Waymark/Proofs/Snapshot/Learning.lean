import Waymark.Proofs.Snapshot.Sound
import Waymark.Proofs.View.Borrowed

/-!
# Learning about one node

What the basic operations tell and what they leave in the snapshot, on any host: they answer as the
host does, and a sound snapshot stays sound. Only the parent of a node may be refused, and only if
the host's parents go in a circle there.
-/

namespace Waymark

open Relation Op

variable {ν : Type}

namespace Snapshot

/-- Which handles may get a slot, and how many slots there are at least. -/
structure Scope (host : Host ν) where
  holds : ν → Prop
  mentioned : ∀ v, host.Mentions v → holds v
  least : Nat

def Scope.all (host : Host ν) : Scope host := ⟨fun _ => True, fun _ _ => trivial, 0⟩

def Scope.Fewer {host : Host ν} (K : Scope host) (k : Nat) : Prop :=
  ∃ nodes : List ν, nodes.length < k ∧ ∀ v, K.holds v → v ∈ nodes

/-- A snapshot of a view. The spans that are kept for nodes without one are those that they borrow. -/
structure Of (w : View ν) (K : Scope w.host) (s : Snapshot ν) : Prop where
  sound : s.Sound w.host
  config : s.config = w.config
  root : s.root.host = w.root
  recovered : ∀ (i : Nat) slot strategy span, s.slots[i]? = some slot →
    slot.recovered = some (strategy, span) → w.Borrows strategy slot.host span
  holds : ∀ i v, s.handle? i = some v → K.holds v
  least : K.least ≤ s.size

theorem Of.arena {w : View ν} {K : Scope w.host} {s : Snapshot ν} (h : s.Of w K) : s.Arena w.host :=
  h.sound.toArena

def Names (s : Snapshot ν) (n : Node ν) (v : ν) : Prop := s.Knows n ∧ n.host = v

theorem Names.mono {s t : Snapshot ν} {n : Node ν} {v : ν} (h : s.Names n v) (hst : s ≤ t) :
    t.Names n v :=
  ⟨h.1.mono hst, h.2⟩

def Tags (s : Snapshot ν) (tag : TypeTag) (name : String) : Prop := s.types.name? tag = some name

variable {w : View ν} {K : Scope w.host}

theorem silent_of : Silent (Of w K) := by
  intro s j h
  exact ⟨h.sound.journal j, h.config, h.root, h.recovered, h.holds, h.least⟩

/-- A snapshot has no more slots than there are handles for them. -/
theorem Of.size_lt {s : Snapshot ν} (h : s.Of w K) {k : Nat} (hk : K.Fewer k) : s.size < k := by
  obtain ⟨nodes, hlen, hmem⟩ := hk
  have hle := h.arena.size_le fun i v hi => hmem v (h.holds i v hi)
  omega

theorem Of.put {s : Snapshot ν} (h : s.Of w K) {n : Node ν} (hn : s.Knows n) {f : Slot ν → Slot ν}
    (hh : ∀ slot, (f slot).host = slot.host) (hle : s ≤ s.put n f)
    (hf : SlotSound w.host s (s.slot n) → SlotSound w.host s (f (s.slot n)))
    (hl : ∀ m, ¬ TransGen (s.put n f).Linked m m)
    (hr : ∀ strategy span, (f (s.slot n)).recovered = some (strategy, span) →
      (s.slot n).recovered = some (strategy, span) ∨ w.Borrows strategy n.host span) :
    (s.put n f).Of w K where
  sound := by
    refine h.sound.put hh hle (fun slot hs => ?_) hl
    have he : slot = s.slot n := by rw [hn.slot_mem.1] at hs; exact (Option.some.inj hs).symm
    rw [he]
    exact hf (hn.sound h.sound)
  config := h.config
  root := h.root
  recovered i slot strategy span hi hrec := by
    rw [getElem?_put] at hi
    split at hi
    · rename_i he
      rw [← he, hn.slot_mem.1] at hi
      cases hi
      rw [hh, hn.slot_mem.2]
      rcases hr strategy span hrec with hr | hr
      · have := h.recovered n.id _ strategy span hn.slot_mem.1 hr
        rwa [hn.slot_mem.2] at this
      · exact hr
    · exact h.recovered i slot strategy span hi hrec
  holds i v hi := h.holds i v (by rwa [handle?_put hh] at hi)
  least := Nat.le_trans h.least (size_mono hle)

theorem Of.extend {s : Snapshot ν} (h : s.Of w K) {v : ν} (hv : K.holds v)
    (hnew : ∀ i, s.handle? i ≠ some v) : (s.extend v).Of w K where
  sound := h.sound.extend hnew
  config := h.config
  root := h.root
  recovered i slot strategy span hs hr := by
    simp only [Snapshot.extend, Array.getElem?_push] at hs
    split at hs
    · cases hs; cases hr
    · exact h.recovered i slot strategy span hs hr
  holds i u hu := by
    rw [handle?_extend] at hu
    split at hu
    · cases hu
      exact hv
    · exact h.holds i u hu
  least := Nat.le_trans h.least (size_mono le_extend)

end Snapshot

namespace Op

open Snapshot

section
variable {w : View ν} {K : Scope w.host} {s₀ : Snapshot ν} {α : Type} {n : Node ν}

theorem asked_tells {γ : Type} {q : Query ν} {op : Op ν α} {r : Except Fault γ}
    {R : Snapshot ν → α → γ → Prop} (h : Tells w.host (Of w K) s₀ op r R) :
    Tells w.host (Of w K) s₀ (asked q >>= fun _ => op) r R :=
  Meets.asked_bind silent_of h

theorem note_tells {γ : Type} {e : Event} {op : Op ν α} {r : Except Fault γ}
    {R : Snapshot ν → α → γ → Prop} (h : Tells w.host (Of w K) s₀ op r R) :
    Tells w.host (Of w K) s₀ (note e >>= fun _ => op) r R :=
  Meets.note_bind silent_of h

theorem answer_tells (r : HostAnswer α) :
    Tells w.host (Of w K) s₀ (answer r) (View.told r) (fun _ a b => a = b) := by
  cases r with
  | ok a => exact Tells.pure fun _ _ _ => rfl
  | error m => exact Tells.throw

/-- Something that leaves the parent alone is put into the slot of a node. -/
theorem meets_update (hn : s₀.Knows n) {f : Slot ν → Slot ν} {E : Fault → Prop}
    (hh : ∀ slot, (f slot).host = slot.host) (hp : ∀ slot, (f slot).parent = slot.parent)
    (hf : ∀ s, s₀ ≤ s → s.Of w K → SlotSound w.host s (s.slot n) → SlotSound w.host s (f (s.slot n)))
    (hr : ∀ s strategy span, (f s).recovered = some (strategy, span) →
      s.recovered = some (strategy, span) ∨ w.Borrows strategy n.host span) :
    Meets w.host (Of w K) s₀ (update n f) (fun _ _ => True) E := by
  intro s hs hi
  have hle : s ≤ s.put n f := le_put hh (hn.mono hs) fun p h => (hp _).trans h
  refine ⟨hle, hi.put (hn.mono hs) hh hle (hf s hs hi) ?_ (hr _), trivial⟩
  rw [linked_put hp]
  exact hi.arena.acyclic

theorem meets_top (hn : s₀.Knows n) (h : w.host.parent n.host = .ok none) {E : Fault → Prop} :
    Meets w.host (Of w K) s₀ (update n fun s => { s with parent := .top }) (fun _ _ => True) E := by
  intro s hs hi
  have hk := hn.mono hs
  -- A parent that was known would contradict the host's answer.
  have hle : s ≤ s.put n fun s => { s with parent := .top } := by
    refine le_put (fun _ => rfl) hk fun p hp => ?_
    have hlink := ((hk.sound hi.sound).parent p hp).1
    rw [hk.slot_mem.2, h] at hlink
    cases hlink
  refine ⟨hle, hi.put hk (fun _ => rfl) hle ?_ ?_ fun _ _ h => .inl h, trivial⟩
  · intro hslot
    refine { hslot with top := fun _ => ?_, parent := nofun }
    rwa [hk.slot_mem.2]
  · intro m hm
    refine hi.arena.acyclic m (TransGen.mono (fun a b hab => ?_) m m hm)
    unfold Linked at hab ⊢
    by_cases hid : n.id = a.id
    · rw [slot_put_self hk hid] at hab
      cases hab
    · rwa [slot_put_of_ne hid] at hab

end

/-! ## Children -/

section
variable {w : View ν} {K : Scope w.host} {s₀ : Snapshot ν} {n : Node ν} (hn : s₀.Knows n)
include hn

theorem childCount_tells :
    Tells w.host (Of w K) s₀ (childCount n) (w.childCount n.host) (fun _ a b => a = b) := by
  refine Meets.slot_bind fun s hs hi => ?_
  have hk := hn.mono hs
  cases hc : (s.slot n).children with
  | some cs =>
    have hcount := (hk.sound hi.sound).count cs hc
    rw [hk.slot_mem.2] at hcount
    rw [View.childCount, hcount]
    exact Tells.pure fun _ _ _ => rfl
  | none =>
    refine asked_tells (Meets.read_bind (Meets.answer_bind (fun count hcount => ?_) fun m hm => ?_))
    · rw [View.childCount, hcount]
      refine Tells.skip (meets_update hk ?_ ?_ ?_ fun _ _ _ h => .inl h)
        (Tells.pure fun _ _ _ => rfl)
      · exact fun _ => rfl
      · exact fun _ => rfl
      intro t ht _ hslot
      refine { hslot with count := ?_, child := ?_ }
      · rintro cs ⟨⟩
        rw [(hk.mono ht).slot_mem.2, hcount, Array.size_replicate]
      · rintro cs i c ⟨⟩ hi
        simp [Array.getElem?_replicate] at hi
    · rw [View.childCount, hm]
      rfl

end

section
variable [DecidableEq ν] {w : View ν} {K : Scope w.host} {s₀ : Snapshot ν}

theorem intern_tells {v : ν} (hv : K.holds v) :
    Tells w.host (Of w K) s₀ (intern v) (.ok v) Names := by
  intro s _ hi
  rw [intern, exec_modifyGet]
  unfold Snapshot.intern
  cases hf : s.find? v with
  | some n => exact ⟨le_refl s, hi, v, rfl, hi.arena.find?_eq_some_iff.1 hf⟩
  | none =>
    exact ⟨le_extend, hi.extend hv (hi.arena.handle?_ne_of_find? hf), v, rfl,
      (handle?_extend s.size).trans (if_pos rfl), rfl⟩

variable {n : Node ν} (hn : s₀.Knows n)
include hn

theorem child_tells (index : Nat) :
    Tells w.host (Of w K) s₀ (child n index) (w.child n.host index) Names := by
  refine (childCount_tells hn).bind ?_
  rintro s count _ hs hi hcount rfl
  by_cases hlt : count ≤ index
  · rw [if_pos hlt, if_pos hlt]
    exact Tells.throw
  rw [if_neg hlt, if_neg hlt]
  refine Meets.slot_bind fun t ht hi' => ?_
  have hk := hn.mono (le_trans hs ht)
  cases hc : (t.slot n).children.bind fun cs => cs[index]?.join with
  | some c =>
    obtain ⟨cs, hcs, hget⟩ := Option.bind_eq_some_iff.1 hc
    have hentry := (hk.sound hi'.sound).child cs index c hcs (Option.join_eq_some_iff.1 hget)
    rw [hk.slot_mem.2] at hentry
    rw [hentry.1]
    exact Tells.pure fun u hu _ => ⟨hentry.2.mono hu, rfl⟩
  | none =>
    refine asked_tells (Meets.read_bind (Meets.answer_bind (fun v hv => ?_) fun m hm => ?_))
    · rw [hv]
      refine Meets.bind (intern_tells (K.mentioned v (.child hv))).sure fun u c hu _ hc => ?_
      refine Tells.skip (meets_update (hk.mono hu) ?_ ?_ ?_ fun _ _ _ h => .inl h)
        (Tells.pure fun x hx _ => hc.mono hx)
      · exact fun _ => rfl
      · exact fun _ => rfl
      intro x hx _ hslot
      refine { hslot with count := ?_, child := ?_ }
      · intro cs hcs
        obtain ⟨old, hold, rfl⟩ := Option.map_eq_some_iff.1 hcs
        rw [Array.size_setIfInBounds]
        exact hslot.count old hold
      · intro cs i c' hcs hget
        obtain ⟨old, hold, rfl⟩ := Option.map_eq_some_iff.1 hcs
        rw [Array.getElem?_setIfInBounds] at hget
        split at hget
        · rename_i he
          split at hget
          · cases hget
            rw [((hk.mono hu).mono hx).slot_mem.2, ← he, hv, hc.2]
            exact ⟨rfl, hc.1.mono hx⟩
          · cases hget
        · exact hslot.child old i c' hold hget
    · rw [hm]
      rfl

/-! ## Parents -/

/-- A link that the snapshot leads back through is refused. Links agree with the host, so the host leads
back too. -/
theorem meets_link {p : Node ν} (hp : s₀.Knows p) (h : w.host.HasParent n.host p.host) :
    Meets w.host (Of w K) s₀ (link n p) (fun t a => a = some p ∧ t.Linked n p)
      (fun e => (∃ type, e = .loop type) ∧ TransGen w.host.HasParent n.host n.host) := by
  intro s hs hi
  have hk := hn.mono hs
  have hkp := hp.mono hs
  have hleads := (hi.arena.leaves hkp n).iff
  rw [link, exec_bind, exec_get]
  by_cases hl : s.leadsTo n (s.size + 1) p = true
  · have hcircle : TransGen w.host.HasParent n.host n.host :=
      .head' h (hi.arena.parents_of_reaches hkp (hleads.1 hl))
    simp only [hl, if_true]
    exact Meets.bind (Q := fun _ _ => False) (Meets.loopAt silent_of ⟨⟨_, rfl⟩, hcircle⟩)
      (fun _ _ _ _ h => h.elim) s (le_refl s) hi
  · simp only [hl, Bool.false_eq_true, if_false]
    have hle : s ≤ s.put n fun s => { s with parent := .node p } := by
      refine le_put (fun _ => rfl) hk fun q hq => ?_
      obtain ⟨hlink, hkq⟩ := (hk.sound hi.sound).parent q hq
      rw [hk.slot_mem.2, h, Except.ok.injEq, Option.some.injEq] at hlink
      rw [hi.arena.eq_of_host_eq hkq hkp hlink.symm]
    refine ⟨hle, hi.put hk (fun _ => rfl) hle ?_ ?_ fun _ _ h => .inl h, rfl, ?_⟩
    · intro hslot
      refine { hslot with top := by rintro ⟨⟩, parent := ?_ }
      rintro q ⟨⟩
      rw [hk.slot_mem.2]
      exact ⟨h, hkp⟩
    · exact acyclic_put hi.arena hk hkp fun hr => hl (hleads.2 hr)
    · exact congrArg Slot.parent (slot_put_self hk rfl)

/-- The host's answer, or a refusal where the parents of the host lead from a node back to it. -/
theorem parent_meets :
    Meets w.host (Of w K) s₀ (parent n)
      (fun s a => ∃ b, w.parent n.host = .ok b ∧ Option.Rel s.Names a b ∧ ∀ p ∈ a, s.Linked n p)
      (fun e => w.parent n.host = .error e ∨
        (∃ type, e = .loop type) ∧ TransGen w.host.HasParent n.host n.host) := by
  refine Meets.slot_bind fun s hs hi => ?_
  have hk := hn.mono hs
  have hsound := hk.sound hi.sound
  rw [View.parent]
  cases hp : (s.slot n).parent with
  | top =>
    have htop := hsound.top hp
    rw [hk.slot_mem.2] at htop
    rw [htop]
    exact Meets.pure fun _ _ _ => ⟨none, rfl, .none, nofun⟩
  | node p =>
    have hlink := hsound.parent p hp
    rw [hk.slot_mem.2] at hlink
    rw [hlink.1]
    refine Meets.pure fun t ht _ => ⟨_, rfl, .some ⟨hlink.2.mono ht, rfl⟩, ?_⟩
    rintro _ ⟨⟩
    exact ht.parent n p hp
  | unresolved =>
    refine Meets.asked_bind silent_of (Meets.read_bind (Meets.answer_bind ?_ ?_))
    · intro answer hanswer
      rw [hanswer]
      cases answer with
      | none =>
        refine Meets.bind (meets_top hk hanswer) fun t _ ht _ _ => ?_
        exact Meets.pure fun _ _ _ => ⟨none, rfl, .none, nofun⟩
      | some v =>
        refine Meets.bind (intern_tells (K.mentioned v (.parent hanswer))).sure ?_
        rintro t p ht - ⟨hpk, rfl⟩
        refine (meets_link (hk.mono ht) hpk hanswer).mono ?_ fun _ h => .inr h
        rintro u _ hu - ⟨rfl, hlink⟩
        refine ⟨_, rfl, .some ⟨hpk.mono hu, rfl⟩, ?_⟩
        rintro _ ⟨⟩
        exact hlink
    · intro m hm
      rw [hm]
      exact .inl rfl

end

/-! ## Types, labels and keys -/

section
variable {w : View ν} {K : Scope w.host} {s₀ : Snapshot ν}

theorem internType_tells (name : String) :
    Tells w.host (Of w K) s₀ (internType name) (.ok name) Tags := by
  intro s _ hi
  rw [internType, exec_modifyGet]
  exact ⟨le_types s name, { hi with sound := hi.sound.types_intern name }, name, rfl,
    (s.types.intern_spec name).1⟩

theorem hasHook_tells {tag : TypeTag} {name : String} (ht : s₀.Tags tag name) (hook : Hook) :
    Tells w.host (Of w K) s₀ (hasHook tag hook) (.ok (w.host.supports name hook))
      (fun _ a b => a = b) := by
  refine Meets.get_bind fun s hs hi => ?_
  have hname : s.types.name? tag = some name := hs.name? tag name ht
  cases hl : s.hooks.lookup (tag, hook) with
  | some b =>
    obtain ⟨name', hn', rfl⟩ := hi.arena.hooks tag hook b hl
    rw [hname] at hn'
    cases hn'
    exact Tells.pure fun _ _ _ => rfl
  | none =>
    simp only [hname, Option.getD_some]
    refine asked_tells (Meets.read_bind (Tells.skip ?_ (Tells.pure fun _ _ _ => rfl)))
    intro t ht hi'
    exact ⟨le_hooks t _, { hi' with sound := hi'.sound.hooks_cons (ht.name? _ _ hname) }, trivial⟩

variable {n : Node ν} (hn : s₀.Knows n)
include hn

theorem typeTag_tells :
    Tells w.host (Of w K) s₀ (typeTag n) (.ok (w.host.typeName n.host)) Tags := by
  refine Meets.slot_bind fun s hs hi => ?_
  have hk := hn.mono hs
  cases hc : (s.slot n).tag with
  | some tag =>
    have htag := (hk.sound hi.sound).tag tag hc
    rw [hk.slot_mem.2] at htag
    exact Tells.pure fun t ht _ => ht.name? _ _ htag
  | none =>
    refine Meets.typeName_bind (Meets.bind (internType_tells _).sure fun t tag ht _ htag => ?_)
    refine Tells.skip (meets_update (hk.mono ht) ?_ ?_ ?_ fun _ _ _ h => .inl h)
      (Tells.pure fun x hx _ => hx.name? _ _ htag)
    · exact fun _ => rfl
    · exact fun _ => rfl
    intro x hx _ hslot
    refine { hslot with tag := ?_ }
    rintro _ ⟨⟩
    rw [((hk.mono ht).mono hx).slot_mem.2]
    exact hx.name? _ _ htag

theorem has_tells (hook : Hook) {α γ : Type} {f : Bool → Op ν α} {r : Except Fault γ}
    {R : Snapshot ν → α → γ → Prop}
    (hf : Tells w.host (Of w K) s₀ (f (w.host.has hook n.host)) r R) :
    Tells w.host (Of w K) s₀ (do f (← hasHook (← typeTag n) hook)) r R := by
  refine Meets.bind (typeTag_tells hn).sure fun s tag hs _ htag => ?_
  refine Meets.bind (hasHook_tells htag hook).sure ?_
  rintro t _ ht - rfl
  exact Tells.later hf (le_trans hs ht)

theorem label_tells :
    Tells w.host (Of w K) s₀ (label n) (.ok (w.host.shownLabel n.host)) (fun _ a b => a = b) := by
  refine has_tells hn .label ?_
  unfold Host.shownLabel
  by_cases h : w.host.has .label n.host = true
  · rw [if_pos h, if_pos h]
    exact asked_tells (Meets.read_bind (Tells.pure fun _ _ _ => rfl))
  · rw [if_neg h, if_neg h]
    exact Tells.pure fun _ _ _ => rfl

theorem isExternal_tells :
    Tells w.host (Of w K) s₀ (isExternal n) (.ok (w.host.isExternal n.host)) (fun _ a b => a = b) := by
  refine has_tells hn .external ?_
  unfold Host.isExternal
  by_cases h : w.host.has .external n.host = true
  · rw [if_pos h, h]
    exact asked_tells (Meets.read_bind (Tells.pure fun _ _ _ => rfl))
  · rw [if_neg h, eq_false_of_ne_true h]
    exact Tells.pure fun _ _ _ => rfl

theorem isVisible_tells :
    Tells w.host (Of w K) s₀ (isVisible n) (.ok (w.host.isVisible n.host)) (fun _ a b => a = b) := by
  have hdefault : Tells w.host (Of w K) s₀ (do return !((← isList n) || (← isOpt n)))
      (.ok !(w.host.typeName n.host == "List" || w.host.typeName n.host == "Opt"))
      (fun _ a b => a = b) := fun s _ hi => ⟨le_refl s, hi, _, rfl, rfl⟩
  refine has_tells hn .visibility ?_
  unfold Host.isVisible
  by_cases h : w.host.has .visibility n.host = true
  · rw [if_pos h, if_pos h]
    refine asked_tells (Meets.read_bind ?_)
    cases w.host.visible n.host with
    | some b => exact Tells.pure fun _ _ _ => rfl
    | none => exact hdefault
  · rw [if_neg h, if_neg h]
    exact hdefault

theorem key_tells : Tells w.host (Of w K) s₀ (key n) (.ok (w.mark n.host)) Marks := by
  refine Meets.slot_bind fun s hs hi => ?_
  have hk := hn.mono hs
  cases hc : (s.slot n).key with
  | some k =>
    have hkey := (hk.sound hi.sound).key k hc
    rw [hk.slot_mem.2, hi.config] at hkey
    exact Tells.pure fun t ht _ => hkey.mono ht
  | none =>
    -- What remains is the same for all keys that stand for the mark.
    have keep : ∀ (t : Snapshot ν) k, t.Knows n → t.Marks k (w.mark n.host) →
        Tells w.host (Of w K) t (do update n (fun s => { s with key := some k }); return k)
          (.ok (w.mark n.host)) Marks := by
      intro t k ht hm
      refine Tells.skip (meets_update ht ?_ ?_ ?_ fun _ _ _ h => .inl h)
        (Tells.pure fun u hu _ => hm.mono hu)
      · exact fun _ => rfl
      · exact fun _ => rfl
      intro u hu hi' hslot
      refine { hslot with key := ?_ }
      rintro _ ⟨⟩
      rw [(ht.mono hu).slot_mem.2, hi'.config]
      exact hm.mono hu
    refine Meets.bind (typeTag_tells hk).sure fun t tag ht _ htag => ?_
    refine Meets.get_bind fun u hu hi' => ?_
    have hku := (hk.mono ht).mono hu
    rw [hi'.config]
    have htype : u.Marks (.type tag) (.type (w.host.typeName n.host)) := hu.name? _ _ htag
    simp only [View.mark, Host.mark] at keep ⊢
    cases hid : w.config.identify with
    | type =>
      rw [hid] at keep
      exact keep u _ hku htype
    | label =>
      rw [hid] at keep
      refine Meets.bind (label_tells hku).sure ?_
      rintro x _ hx - rfl
      cases hl : w.host.shownLabel n.host with
      | none =>
        rw [hl] at keep
        exact keep x _ (hku.mono hx) (htype.mono hx)
      | some l =>
        rw [hl] at keep
        exact keep x _ (hku.mono hx) rfl

/-! ## Spans -/

omit hn in
theorem hostSpan_tells :
    Tells w.host (Of w K) s₀ (hostSpan n) (.ok (w.host.reportedSpan w.config.positions n.host))
      (fun _ a b => a = b) := by
  refine Meets.get_bind fun s _ hi => ?_
  rw [hi.config]
  cases w.config.positions with
  | packed => exact asked_tells (Meets.read_bind (Tells.pure fun _ _ _ => rfl))
  | lineColumn => exact asked_tells (Meets.read_bind (Tells.pure fun _ _ _ => rfl))

theorem rawSpan_tells :
    Tells w.host (Of w K) s₀ (rawSpan n) (.ok (w.rawSpan n.host)) (fun _ a b => a = b) := by
  refine Meets.slot_bind fun s hs hi => ?_
  have hk := hn.mono hs
  cases hc : (s.slot n).rawSpan with
  | some span =>
    have hspan := (hk.sound hi.sound).rawSpan span hc
    rw [hk.slot_mem.2, hi.config] at hspan
    exact Tells.pure fun _ _ _ => hspan
  | none =>
    refine Meets.bind hostSpan_tells.sure ?_
    rintro t _ ht - rfl
    refine Meets.typeName_bind (note_tells (Tells.skip (meets_update (hk.mono ht) ?_ ?_ ?_ ?_) ?_))
    · exact fun _ => rfl
    · exact fun _ => rfl
    · intro u hu hi' hslot
      refine { hslot with rawSpan := ?_ }
      rintro _ ⟨⟩
      rw [((hk.mono ht).mono hu).slot_mem.2, hi'.config]
      rfl
    · exact fun _ _ _ h => .inl h
    · exact Tells.pure fun _ _ _ => rfl

end

end Op

end Waymark
