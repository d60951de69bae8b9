import Waymark.Proofs.Snapshot.Learning
import Waymark.Proofs.Snapshot.Walking

/-!
# What operations keep and tell

On any host, whatever an operation is asked and however it ends, a snapshot of a view stays one, and what
comes out is what the host says. An operation fails only if the host fails it, if parents go in a circle or
a walk down meets a node twice, or if it runs out of steps; the last cannot happen where the handles are
few enough.
-/

namespace Waymark.Op

open Relation Snapshot

variable {ν α β : Type}

/-! ## Faults -/

/-- A walk of `k` steps is as long as any, or running out of steps is excused. -/
def Enough {host : Host ν} (K : Scope host) (E : Fault → Prop) (k : Nat) : Prop := E .endless ∨ K.Fewer k

theorem Enough.more {host : Host ν} {K : Scope host} {E : Fault → Prop} {k l : Nat} (h : Enough K E k)
    (hkl : k ≤ l) : Enough K E l :=
  h.imp_right fun ⟨nodes, hlen, hmem⟩ => ⟨nodes, Nat.lt_of_lt_of_le hlen hkl, hmem⟩

/-- The faults in `E` cover what the host gives cause for. -/
structure Excuses (host : Host ν) (K : Scope host) (E : Fault → Prop) : Prop where
  failed : ∀ m, host.Fails m → E (.host m)
  tangled : ∀ type, host.Tangled → E (.loop type)
  endless : E .endless ∨ K.Fewer (K.least + host.size + 1) ∧ host.Plain

structure SpanExcuses (host : Host ν) (K : Scope host) (E : Fault → Prop) (U D : ν → Prop) : Prop where
  up : ∀ v p, U v → host.HasParent v p → U p
  parent : ∀ v m, U v → host.parent v = .error m → E (.host m)
  circle : ∀ v type, U v → TransGen host.HasParent v v → E (.loop type)
  down : ∀ v c, D v → host.HasFirst v c → D c
  children : ∀ v m, D v → host.FailsBelow v m → E (.host m)
  spiral : ∀ v type, D v → TransGen host.HasFirst v v → E (.loop type)
  enough : Enough K E (K.least + host.size + 1)

structure SearchExcuses (host : Host ν) (K : Scope host) (E : Fault → Prop) (U D : ν → Prop) (start : ν) :
    Prop extends SpanExcuses host K E U D where
  within : ∀ v, host.Below start v → U v ∧ D v
  twice : ∀ v path path' type, path ≠ path' → host.Way start path v → host.Way start path' v →
    E (.loop type)

namespace Excuses

/-- Any fault is excused. -/
theorem all (host : Host ν) : Excuses host (.all host) fun _ => True :=
  ⟨fun _ _ => trivial, fun _ _ => trivial, .inl trivial⟩

variable {host : Host ν} {K : Scope host} {E : Fault → Prop} (hE : Excuses host K E)
include hE

theorem enough : Enough K E (K.least + host.size + 1) := hE.endless.imp_right And.left

theorem children (v : ν) (m : String) (h : host.FailsBelow v m) : E (.host m) := hE.failed m h.fails

theorem spans : SpanExcuses host K E (fun _ => True) (fun _ => True) where
  up _ _ _ _ := trivial
  parent _ m _ h := hE.failed m (.parent h)
  circle v type _ h := hE.tangled type (.inl ⟨v, h⟩)
  down _ _ _ _ := trivial
  children v m _ h := hE.children v m h
  spiral v type _ h := by
    have hle : host.HasFirst ≤ host.IsChild := fun _ _ hc => ⟨0, hc⟩
    obtain ⟨path, hne, hway⟩ := Host.twice_of_circle .here (TransGen.mono hle v v h)
    exact hE.tangled type (.inr ⟨v, v, [], path, hne, .here, hway⟩)
  enough := hE.enough

theorem search (start : ν) : SearchExcuses host K E (fun _ => True) (fun _ => True) start where
  toSpanExcuses := hE.spans
  within _ _ := ⟨trivial, trivial⟩
  twice v path path' type hne h h' := hE.tangled type (.inr ⟨start, v, path, path', hne, h, h'⟩)

end Excuses

abbrev Keeps (w : View ν) (K : Scope w.host) (E : Fault → Prop) (s₀ : Snapshot ν) (op : Op ν α)
    (Q : Snapshot ν → α → Prop) : Prop :=
  Meets w.host (Of w K) s₀ op Q E

section
variable {w : View ν} {K : Scope w.host} {E : Fault → Prop} {s₀ : Snapshot ν} {op : Op ν α}
variable {Q : Snapshot ν → α → Prop} {R : Snapshot ν → β → Prop}

/-- What holds of every snapshot of the view may be taken for granted. -/
theorem Keeps.here (h : ∀ s, s₀ ≤ s → s.Of w K → Keeps w K E s op Q) : Keeps w K E s₀ op Q :=
  fun s hs hi => h s hs hi s (le_refl s) hi

theorem Keeps.note_bind {e : Event} (h : Keeps w K E s₀ op Q) :
    Keeps w K E s₀ (note e >>= fun _ => op) Q :=
  Meets.note_bind silent_of h

/-- No walk has more steps than there are slots. -/
theorem Keeps.endless {k : Nat} (hk : Enough K E k) (hle : ∀ s, s₀ ≤ s → s.Of w K → k ≤ s.size) :
    Keeps w K E s₀ (throw .endless : Op ν α) Q := by
  refine Keeps.here fun s hs hi => Meets.throw ?_
  rcases hk with hk | hk
  · exact hk
  · exact absurd (hi.size_lt hk) (Nat.not_lt_of_le (hle s hs hi))

theorem Keeps.mapM {f : α → Op ν β} {R : Snapshot ν → α → β → Prop}
    (hR : ∀ s t a b, s ≤ t → R s a b → R t a b) :
    ∀ (as : List α) {s₀ : Snapshot ν}, (∀ a ∈ as, ∀ s, s₀ ≤ s → Keeps w K E s (f a) (R · a)) →
      Keeps w K E s₀ (as.mapM f) (fun s bs => List.Forall₂ (R s) as bs)
  | [], _, _ => by
    rw [List.mapM_nil]
    exact Meets.pure fun _ _ _ => .nil
  | a :: as, s₀, h => by
    rw [List.mapM_cons]
    refine (h a (by simp) s₀ (le_refl s₀)).bind fun s b hs _ hb => ?_
    refine (Keeps.mapM hR as fun a' ha' t ht => h a' (by simp [ha']) t (le_trans hs ht)).bind ?_
    exact fun t bs ht _ hbs => Meets.pure fun u hu _ =>
      .cons (hR _ _ _ _ (le_trans ht hu) hb) (hbs.imp fun a' b' => hR _ _ a' b' hu)

theorem Keeps.mapM_mem {f : α → Op ν β} (hR : ∀ s t b, s ≤ t → R s b → R t b) (as : List α)
    (h : ∀ a ∈ as, ∀ s, s₀ ≤ s → Keeps w K E s (f a) R) :
    Keeps w K E s₀ (as.mapM f) (fun s bs => ∀ b ∈ bs, R s b) := by
  refine (Keeps.mapM (R := fun s _ b => R s b) (fun s t _ b => hR s t b) as h).mono ?_ fun _ h => h
  intro s bs _ _ hbs
  clear h
  induction hbs with
  | nil => simp
  | cons hb _ ih => exact List.forall_mem_cons.2 ⟨hb, ih⟩

theorem Keeps.reach_bind (h : Enough K E (K.least + w.host.size + 1)) {f : Nat → Op ν β}
    (hf : ∀ k, Enough K E k → Keeps w K E s₀ (f k) R) : Keeps w K E s₀ (reach >>= f) R := by
  refine Meets.reach_bind fun s hs hi => Meets.later (hf _ (h.more ?_)) hs
  have := hi.least
  omega

theorem Keeps.boundWalk_bind {n : Node ν} {k : Nat} (hk : ∀ s type, s₀ ≤ s → s.size < k → E (.loop type))
    (h : ∀ s, s₀ ≤ s → s.Of w K → k ≤ s.size → Keeps w K E s op Q) :
    Keeps w K E s₀ (boundWalk k n >>= fun _ => op) Q :=
  Meets.bind (Meets.boundWalk silent_of fun s hs _ hlt => hk s _ hs hlt)
    fun s _ hs hi hle => h s hs hi hle

end

/-! ## Targets -/

structure Aims (w : View ν) (s : Snapshot ν) (n : Node ν) (depth : Nat) (target : Target) : Prop where
  key : s.Marks target.key (w.mark n.host)
  span : w.HasSpan n.host target.span
  depth : target.depth = depth

theorem Aims.mono {w : View ν} {s t : Snapshot ν} {n : Node ν} {depth : Nat} {target : Target}
    (h : Aims w s n depth target) (hst : s ≤ t) : Aims w t n depth target :=
  { h with key := h.key.mono hst }

def SameTarget (s : Snapshot ν) (target : Target) (t : View.Sought) : Prop :=
  s.Marks target.key t.mark ∧ target.span = t.span ∧ target.depth = t.depth

theorem SameTarget.mono {s t : Snapshot ν} {target : Target} {x : View.Sought} (h : SameTarget s target x)
    (hst : s ≤ t) : SameTarget t target x :=
  ⟨h.1.mono hst, h.2⟩

section
variable {w : View ν} {K : Scope w.host} {E : Fault → Prop} {s₀ : Snapshot ν} {n : Node ν}

theorem keeps_isAway (hn : s₀.Knows n) (target : Target) : Keeps w K E s₀ (isAway target n)
    (fun _ b => b = ((w.rawSpan n.host).isMeaningful && !(w.rawSpan n.host).overlaps target.span)) := by
  refine Meets.bind (rawSpan_tells hn).sure ?_
  rintro s _ hs - rfl
  split
  · rename_i h
    exact Meets.typeName_bind (Keeps.note_bind (Meets.pure fun _ _ _ => h.symm))
  · rename_i h
    exact Meets.pure fun _ _ _ => (eq_false_of_ne_true h).symm

theorem keeps_isElsewhere (hn : s₀.Knows n) (p : Position) :
    Keeps w K E s₀ (isElsewhere p n) (fun _ b => b = w.isElsewhere p n.host) := by
  refine Meets.bind (rawSpan_tells hn).sure ?_
  rintro s _ hs - rfl
  unfold View.isElsewhere
  split
  · rename_i h
    refine Meets.bind (isExternal_tells (hn.mono hs)).sure ?_
    rintro t _ ht - rfl
    exact Meets.pure fun _ _ _ => by rw [h, Bool.true_and]
  · rename_i h
    exact Meets.pure fun _ _ _ => by rw [eq_false_of_ne_true h, Bool.false_and]

theorem keeps_targetOf (f : Fingerprint) :
    Keeps w K E s₀ (targetOf f) (fun s target => SameTarget s target (w.soughtOf f)) := by
  refine Meets.get_bind fun s _ hi => ?_
  have byType : Keeps w K E s
      (do pure { key := NodeKey.type (← internType f.type), span := f.span, depth := f.depth.toNat })
      (fun s target => SameTarget s target ⟨.type f.type, f.span, f.depth.toNat⟩) := by
    refine Meets.bind (internType_tells f.type).sure fun t tag _ _ htag => ?_
    exact Meets.pure fun u hu _ => ⟨hu.name? _ _ htag, rfl, rfl⟩
  rw [hi.config]
  unfold View.soughtOf
  cases f.label with
  | none => exact byType
  | some label =>
    cases w.config.identify with
    | label => exact Meets.pure fun _ _ _ => ⟨rfl, rfl, rfl⟩
    | type => exact byType

end

variable [DecidableEq ν] {w : View ν} {K : Scope w.host} {E : Fault → Prop} {s₀ : Snapshot ν}
variable {n : Node ν}

/-! ## Neighbours -/

section
variable (hE : ∀ m, w.host.FailsBelow n.host m → E (.host m))
include hE

omit [DecidableEq ν] in
theorem keeps_childCount (hn : s₀.Knows n) :
    Keeps w K E s₀ (childCount n) (fun _ count => w.host.childCount n.host = .ok count) := by
  refine Meets.mono (childCount_tells hn) ?_ fun e he => ?_
  · rintro s count _ _ ⟨_, hcount, rfl⟩
    exact View.told_eq_ok.1 hcount
  · obtain ⟨m, hm, rfl⟩ := View.told_eq_error.1 he
    exact hE m (.count hm)

/-- The child at an index that was told to be there. -/
theorem keeps_child (hn : s₀.Knows n) {i count : Nat} (hcount : w.host.childCount n.host = .ok count)
    (hi : i < count) :
    Keeps w K E s₀ (child n i) (fun s c => w.host.Lists n.host i c.host ∧ s.Knows c) := by
  refine Meets.mono (child_tells hn i) ?_ fun e he => ?_
  · rintro s c _ _ ⟨v, hv, hc⟩
    exact ⟨hc.2 ▸ View.child_eq_ok.1 hv, hc.1⟩
  · obtain ⟨m, hm, rfl⟩ := (View.child_eq_error hcount hi).1 he
    exact hE m (.child hcount hi hm)

theorem keeps_children (hn : s₀.Knows n) : Keeps w K E s₀ (children n)
    (fun s cs => ∀ c ∈ cs, w.host.IsChild n.host c.host ∧ s.Knows c) := by
  refine (keeps_childCount hE hn).bind fun s count hs _ hcount => ?_
  refine Keeps.mapM_mem (fun _ _ _ hst h => ⟨h.1, h.2.mono hst⟩) _ fun i hi t ht => ?_
  refine (keeps_child hE (hn.mono (le_trans hs ht)) hcount (List.mem_range.1 hi)).mono ?_ fun _ h => h
  exact fun _ c _ _ hc => ⟨⟨i, hc.1⟩, hc.2⟩

/-- The children are on top of the stack, the first one uppermost. -/
theorem keeps_pushChildren {count : Nat} (hcount : w.host.childCount n.host = .ok count) (depth : Nat) :
    ∀ (k : Nat) {s₀ : Snapshot ν} {stack : List (Node ν × Nat)}, k ≤ count → s₀.Knows n →
    Keeps w K E s₀ (pushChildren n depth k stack) (fun s st => ∃ cs : List (Node ν),
      st = cs.map (·, depth) ++ stack ∧ cs.length = k ∧
        ∀ (i : Nat) c, cs[i]? = some c → w.host.Lists n.host i c.host ∧ s.Knows c)
  | 0, _, stack, _, _ => Meets.pure fun _ _ _ => ⟨[], rfl, rfl, by simp⟩
  | k + 1, s₀, stack, hk, hn => by
    refine (keeps_child hE hn hcount hk).bind fun s c hs _ hc => ?_
    refine (keeps_pushChildren hcount depth k (Nat.le_of_succ_le hk) (hn.mono hs)).mono ?_ fun _ h => h
    rintro t _ ht - ⟨cs, rfl, hlen, hcs⟩
    refine ⟨cs ++ [c], by simp, by simp [hlen], fun i x hx => ?_⟩
    rw [List.getElem?_append] at hx
    split at hx
    · exact hcs i x hx
    · have hi : i = k := by
        have := (List.getElem?_eq_some_iff.1 hx).1
        simp only [List.length_singleton] at this
        omega
      subst hi
      simp only [hlen, Nat.sub_self, List.getElem?_cons_zero, Option.some.injEq] at hx
      subst hx
      exact ⟨hc.1, hc.2.mono ht⟩

theorem keeps_firstChild (hn : s₀.Knows n) : Keeps w K E s₀ (firstChild n)
    (fun s c => w.firstChild n.host = .ok (c.map Node.host) ∧ ∀ m ∈ c, s.Knows m) := by
  refine (keeps_childCount hE hn).bind fun s count hs _ hcount => ?_
  by_cases hpos : 0 < count
  · rw [if_pos hpos]
    refine (keeps_child hE (hn.mono hs) hcount hpos).bind fun t c ht _ hc => Meets.pure fun u hu _ => ?_
    refine ⟨View.firstChild_of_lists hc.1, ?_⟩
    rintro m ⟨⟩
    exact hc.2.mono hu
  · rw [if_neg hpos]
    rw [Nat.eq_zero_of_not_pos hpos] at hcount
    exact Meets.pure fun _ _ _ => ⟨View.firstChild_of_childless hcount, nofun⟩

end

theorem keeps_parent (hf : ∀ m, w.host.parent n.host = .error m → E (.host m))
    (hc : ∀ type, TransGen w.host.HasParent n.host n.host → E (.loop type)) (hn : s₀.Knows n) : Keeps w K E s₀ (parent n)
    (fun s p => w.parent n.host = .ok (p.map Node.host) ∧ ∀ m ∈ p, s.Knows m ∧ s.Linked n m) := by
  refine Meets.mono (parent_meets hn) ?_ fun e he => ?_
  · rintro s p _ _ ⟨b, hb, hp, hlinked⟩
    refine ⟨?_, fun m hm => ⟨?_, hlinked m hm⟩⟩
    · cases hp with
      | none => exact hb
      | some h =>
        rw [hb, ← h.2]
        rfl
    · cases hm
      cases hp with
      | some h => exact h.1
  · rcases he with he | ⟨⟨type, rfl⟩, hcircle⟩
    · obtain ⟨m, hm, rfl⟩ := View.told_eq_error.1 he
      exact hf m hm
    · exact hc type hcircle

/-! ## Borrowed spans -/

section
variable {U D : ν → Prop} (hS : SpanExcuses w.host K E U D)
include hS

theorem keeps_spanAbove : ∀ (fuel : Nat) {s₀ : Snapshot ν} {n : Node ν} {seen : List (Node ν)},
    U n.host → s₀.Climbs seen n → Enough K E (seen.length + fuel) →
    Keeps w K E s₀ (spanAbove fuel n) (fun _ span => w.Ahead w.parent n.host span)
  | 0, _, _, seen, _, hc, hk =>
    Keeps.endless hk fun _ hs hi => Nat.le_of_lt ((hc.mono hs).length_lt hi.arena)
  | fuel + 1, s₀, n, seen, hU, hc, hk => by
    refine (keeps_parent (hS.parent _ · hU) (hS.circle _ · hU) (hc.knows n (by simp))).bind ?_
    intro s p hs hi hp
    cases p with
    | none => exact Meets.pure fun _ _ _ => .ends hp.1
    | some p =>
      obtain ⟨hpk, hlink⟩ := hp.2 p rfl
      refine Meets.bind (rawSpan_tells hpk).sure ?_
      rintro t _ ht - rfl
      split
      · rename_i hm
        exact Meets.pure fun _ _ _ => .here hp.1 hm
      · rename_i hm
        have hc' := ((hc.mono hs).next hi.arena hlink).mono ht
        have hU' := hS.up _ _ hU (View.parent_eq_ok.1 hp.1)
        refine (keeps_spanAbove fuel hU' hc' ?_).mono ?_ fun _ h => h
        · simpa only [List.length_cons, Nat.add_assoc, Nat.add_comm 1] using hk
        · exact fun _ _ _ _ h => .beyond hp.1 (eq_false_of_ne_true hm) h

theorem keeps_spanBelow : ∀ (fuel k : Nat) {s₀ : Snapshot ν} {n : Node ν},
    Descends w.host D s₀ k n → Enough K E (k + 1 + fuel) →
    Keeps w K E s₀ (spanBelow fuel (k + 1) n) (fun _ span => w.Ahead w.firstChild n.host span)
  | 0, k, _, _, hd, hk => Keeps.endless hk fun _ hs _ => (hd.mono hs).1
  | fuel + 1, k, s₀, n, hd, hk => by
    obtain ⟨hn, hD⟩ := hd.knows
    refine (keeps_firstChild (hS.children _ · hD) hn).bind fun s c hs _ hc => ?_
    cases c with
    | none => exact Meets.pure fun _ _ _ => .ends hc.1
    | some c =>
      have hck := hc.2 c rfl
      have hl : w.host.HasFirst n.host c.host := View.firstChild_eq_ok hc.1
      have hnext := fun t (ht : s ≤ t) =>
        (hd.mono (le_trans hs ht)).next hl (hck.mono ht) (hS.down _ _ hD hl)
      refine Keeps.boundWalk_bind (fun t type ht hlt => ?_) fun t ht _ hle => ?_
      · obtain ⟨v, hv, hspiral⟩ := (hnext t ht).1 hlt
        exact hS.spiral v type hv hspiral
      have hd' := (hnext t ht).2 hle
      refine Meets.bind (rawSpan_tells (hck.mono ht)).sure ?_
      rintro u _ hu - rfl
      split
      · rename_i hm
        exact Meets.pure fun _ _ _ => .here hc.1 hm
      · rename_i hm
        refine (keeps_spanBelow fuel (k + 1) (hd'.mono hu) ?_).mono ?_ fun _ h => h
        · rwa [Nat.add_right_comm (k + 1) 1 fuel]
        · exact fun _ _ _ _ h => .beyond hc.1 (eq_false_of_ne_true hm) h

def Ascends (U : ν → Prop) (s : Snapshot ν) (k : Nat) (n : Node ν) : Prop :=
  U n.host ∧ ∃ seen, seen.length = k ∧ s.Climbs seen n

theorem keeps_stepUp {k : Nat} {up : Option (Node ν)} (hu : ∀ m ∈ up, Ascends U s₀ k m) :
    Keeps w K E s₀ (stepUp up) (fun s a =>
      w.stepUp (up.map Node.host) = .ok (a.1.map Node.host, a.2) ∧ ∀ m ∈ a.1, Ascends U s (k + 1) m) := by
  cases up with
  | none => exact Meets.pure fun _ _ _ => ⟨rfl, nofun⟩
  | some n =>
    obtain ⟨hU, seen, rfl, hc⟩ := hu n rfl
    refine (keeps_parent (hS.parent _ · hU) (hS.circle _ · hU) (hc.knows n (by simp))).bind ?_
    intro s p hs hi hp
    simp only [Option.map_some, View.stepUp, hp.1]
    cases p with
    | none => exact Meets.pure fun _ _ _ => ⟨rfl, nofun⟩
    | some p =>
      obtain ⟨hpk, hlink⟩ := hp.2 p rfl
      refine Meets.bind (rawSpan_tells hpk).sure ?_
      rintro t _ ht - rfl
      refine Meets.pure fun x hx _ => ⟨rfl, ?_⟩
      rintro m ⟨⟩
      exact ⟨hS.up _ _ hU (View.parent_eq_ok.1 hp.1), n :: seen, rfl,
        ((hc.mono hs).next hi.arena hlink).mono (le_trans ht hx)⟩

theorem keeps_stepDown {k : Nat} {down : Option (Node ν)}
    (hd : ∀ m ∈ down, Descends w.host D s₀ k m) :
    Keeps w K E s₀ (stepDown (k + 1) down) (fun s a =>
      w.stepDown (down.map Node.host) = .ok (a.1.map Node.host, a.2) ∧
        ∀ m ∈ a.1, Descends w.host D s (k + 1) m) := by
  cases down with
  | none => exact Meets.pure fun _ _ _ => ⟨rfl, nofun⟩
  | some n =>
    have hdn := hd n rfl
    obtain ⟨hn, hD⟩ := hdn.knows
    refine (keeps_firstChild (hS.children _ · hD) hn).bind fun s c hs _ hc => ?_
    simp only [Option.map_some, View.stepDown, hc.1]
    cases c with
    | none => exact Meets.pure fun _ _ _ => ⟨rfl, nofun⟩
    | some c =>
      have hck := hc.2 c rfl
      have hl : w.host.HasFirst n.host c.host := View.firstChild_eq_ok hc.1
      have hnext := fun t (ht : s ≤ t) =>
        (hdn.mono (le_trans hs ht)).next hl (hck.mono ht) (hS.down _ _ hD hl)
      refine Keeps.boundWalk_bind (fun t type ht hlt => ?_) fun t ht _ hle => ?_
      · obtain ⟨v, hv, hspiral⟩ := (hnext t ht).1 hlt
        exact hS.spiral v type hv hspiral
      have hd' := (hnext t ht).2 hle
      refine Meets.bind (rawSpan_tells (hck.mono ht)).sure ?_
      rintro u _ hu - rfl
      refine Meets.pure fun x hx _ => ⟨rfl, ?_⟩
      rintro m ⟨⟩
      exact hd'.mono (le_trans hu hx)

omit hS in
theorem spanAround_succ {fuel visited : Nat} {up down : Option (Node ν)} (h : up = none → down ≠ none) :
    spanAround (fuel + 1) visited up down = (do
      let (up, span) ← stepUp up
      if span.isMeaningful then return span
      let (down, span) ← stepDown visited down
      if span.isMeaningful then return span
      spanAround fuel (visited + 1) up down) := by
  cases up with
  | some _ => rfl
  | none =>
    cases down with
    | some _ => rfl
    | none => exact absurd rfl (h rfl)

omit hS in
theorem spanAround_none {fuel visited : Nat} :
    spanAround fuel visited none none = (pure .none : Op ν Span) := by
  cases fuel <;> rfl

omit hS in
theorem spanAround_zero {visited : Nat} {up down : Option (Node ν)} (h : up = none → down ≠ none) :
    spanAround 0 visited up down = throw .endless := by
  cases up with
  | some _ => rfl
  | none =>
    cases down with
    | some _ => rfl
    | none => exact absurd rfl (h rfl)

theorem keeps_spanAround : ∀ (fuel k : Nat) {s₀ : Snapshot ν} {up down : Option (Node ν)},
    (∀ m ∈ up, Ascends U s₀ k m) → (∀ m ∈ down, Descends w.host D s₀ k m) →
    Enough K E (k + 1 + fuel) →
    Keeps w K E s₀ (spanAround fuel (k + 1) up down)
      (fun _ span => w.Around (up.map Node.host) (down.map Node.host) span) := by
  intro fuel
  induction fuel with
  | zero =>
    intro k s₀ up down hu hd hk
    by_cases h : up = none → down ≠ none
    · rw [spanAround_zero h]
      -- One of the two walks is still on its way, and it is not longer than there are slots.
      refine Keeps.endless hk fun s hs hi => ?_
      cases up with
      | some u =>
        obtain ⟨-, seen, rfl, hc⟩ := hu u rfl
        exact (hc.mono hs).length_lt hi.arena
      | none =>
        cases down with
        | some d => exact ((hd d rfl).mono hs).1
        | none => exact absurd rfl (h rfl)
    · obtain ⟨rfl, rfl⟩ : up = none ∧ down = none := by simpa using h
      exact Meets.pure fun _ _ _ => .ends
  | succ fuel ih =>
    intro k s₀ up down hu hd hk
    by_cases h : up = none → down ≠ none
    · rw [spanAround_succ h]
      refine (keeps_stepUp hS hu).bind ?_
      rintro s ⟨up', span⟩ hs - ⟨hup, hu'⟩
      by_cases hm : span.isMeaningful = true
      · simp only [hm, if_true]
        exact Meets.pure fun _ _ _ => .foundAbove hup hm
      simp only [hm, Bool.false_eq_true, if_false]
      refine (keeps_stepDown hS fun m hmem => (hd m hmem).mono hs).bind ?_
      rintro t ⟨down', span'⟩ ht - ⟨hdown, hd'⟩
      by_cases hm' : span'.isMeaningful = true
      · simp only [hm', if_true]
        exact Meets.pure fun _ _ _ => .foundBelow hup (eq_false_of_ne_true hm) hdown hm'
      simp only [hm', Bool.false_eq_true, if_false]
      refine (ih (k + 1) (fun m hmem => ?_) hd' ?_).mono (fun _ _ _ _ hr => ?_) fun _ h => h
      · obtain ⟨hU, seen, hlen, hc⟩ := hu' m hmem
        exact ⟨hU, seen, hlen, hc.mono ht⟩
      · rwa [Nat.add_right_comm (k + 1) 1 fuel]
      · refine .beyond ?_ hup (eq_false_of_ne_true hm) hdown (eq_false_of_ne_true hm') hr
        simpa using h
    · obtain ⟨rfl, rfl⟩ : up = none ∧ down = none := by simpa using h
      rw [spanAround_none]
      exact Meets.pure fun _ _ _ => .ends

theorem keeps_borrowedSpan (hn : s₀.Knows n) (hU : U n.host) (hD : D n.host) (strategy : Recovery) :
    Keeps w K E s₀ (borrowedSpan strategy n) (fun _ span => w.Borrows strategy n.host span) := by
  have above : ∀ s, s₀ ≤ s → Keeps w K E s (do spanAbove (← reach) n)
      (fun _ span => w.Ahead w.parent n.host span) := by
    intro s hs
    refine Keeps.reach_bind hS.enough fun k hk => keeps_spanAbove hS k hU (.first (hn.mono hs)) ?_
    simpa using hk
  have below : ∀ s, s₀ ≤ s → Keeps w K E s (do spanBelow (← reach) 1 n)
      (fun _ span => w.Ahead w.firstChild n.host span) := by
    intro s hs
    refine Keeps.reach_bind hS.enough fun k hk => ?_
    exact keeps_spanBelow hS k 0 (.first (hn.mono hs) hD) (hk.more (by omega))
  cases strategy with
  | fail => exact Meets.pure fun _ _ _ => .fail
  | parent => exact (above s₀ (le_refl s₀)).mono (fun _ _ _ _ h => .parent h) fun _ h => h
  | child => exact (below s₀ (le_refl s₀)).mono (fun _ _ _ _ h => .child h) fun _ h => h
  | parentThenChild =>
    refine (above s₀ (le_refl s₀)).bind fun s span hs _ h => ?_
    split
    · rename_i hm
      exact Meets.pure fun _ _ _ => .parentFirst h hm
    · rename_i hm
      exact (below s hs).mono (fun _ _ _ _ h' => .parentThenChild h (eq_false_of_ne_true hm) h') fun _ h => h
  | childThenParent =>
    refine (below s₀ (le_refl s₀)).bind fun s span hs _ h => ?_
    split
    · rename_i hm
      exact Meets.pure fun _ _ _ => .childFirst h hm
    · rename_i hm
      exact (above s hs).mono (fun _ _ _ _ h' => .childThenParent h (eq_false_of_ne_true hm) h') fun _ h => h
  | alternate =>
    refine Keeps.reach_bind hS.enough fun k hk => ?_
    refine (keeps_spanAround hS k 0 ?_ ?_ (hk.more (by omega))).mono (fun _ _ _ _ h => .alternate h)
      fun _ h => h
    · rintro m ⟨⟩
      exact ⟨hU, [], rfl, .first hn⟩
    · rintro m ⟨⟩
      exact .first hn hD

theorem keeps_borrow (hn : s₀.Knows n) (hU : U n.host) (hD : D n.host) (strategy : Recovery) :
    Keeps w K E s₀ (borrow strategy n) (fun _ span => w.Borrows strategy n.host span) := by
  refine (keeps_borrowedSpan hS hn hU hD strategy).bind fun s span hs _ hspan => ?_
  refine Meets.typeName_bind (Keeps.note_bind (Meets.bind (Q := fun _ _ => True)
    (meets_update (hn.mono hs) ?_ ?_ ?_ ?_) fun _ _ _ _ _ => Meets.pure fun _ _ _ => hspan))
  · exact fun _ => rfl
  · exact fun _ => rfl
  · exact fun _ _ _ hslot => { hslot with }
  · rintro _ _ _ ⟨⟩
    exact .inr hspan

theorem spanWith_meets (hn : s₀.Knows n) (hU : U n.host) (hD : D n.host) (strategy : Recovery) :
    Keeps w K E s₀ (spanWith strategy n) (fun _ span => w.HasSpanUnder strategy n.host span) := by
  refine Meets.bind (rawSpan_tells hn).sure ?_
  rintro s _ hs - rfl
  unfold View.HasSpanUnder
  by_cases hm : (w.rawSpan n.host).isMeaningful = true
  · simp only [hm, if_true]
    exact Meets.pure fun _ _ _ => rfl
  simp only [hm, Bool.false_eq_true, if_false]
  refine Meets.slot_bind fun t ht hi => ?_
  have hk := hn.mono (le_trans hs ht)
  cases hr : (t.slot n).recovered with
  | none => exact keeps_borrow hS hk hU hD strategy
  | some r =>
    obtain ⟨st, span⟩ := r
    have hkept := hi.recovered n.id _ st span hk.slot_mem.1 hr
    rw [hk.slot_mem.2] at hkept
    by_cases hst : st = strategy
    · subst hst
      simp only [if_true]
      exact Meets.pure fun _ _ _ => hkept
    · simp only [hst, if_false]
      exact keeps_borrow hS hk hU hD strategy

theorem span_meets (hn : s₀.Knows n) (hU : U n.host) (hD : D n.host) :
    Keeps w K E s₀ (span n) (fun _ span => w.HasSpan n.host span) := by
  refine Meets.get_bind fun s hs hi => ?_
  rw [hi.config]
  exact spanWith_meets hS (hn.mono hs) hU hD _

theorem targetAt_meets (hn : s₀.Knows n) (hU : U n.host) (hD : D n.host) (depth : Nat) :
    Keeps w K E s₀ (targetAt n depth) (fun s target => Aims w s n depth target) := by
  refine Meets.bind (key_tells hn).sure fun s k hs _ hkey => ?_
  refine (span_meets hS (hn.mono hs) hU hD).bind fun t span ht _ hspan => Meets.pure fun u hu _ => ?_
  exact ⟨hkey.mono (le_trans ht hu), hspan, rfl⟩

end

section
variable (hE : Excuses w.host K E)
include hE

theorem keeps_spanWith (hn : s₀.Knows n) (strategy : Recovery) :
    Keeps w K E s₀ (spanWith strategy n) (fun _ span => w.HasSpanUnder strategy n.host span) :=
  spanWith_meets hE.spans hn trivial trivial strategy

theorem keeps_span (hn : s₀.Knows n) : Keeps w K E s₀ (span n) (fun _ span => w.HasSpan n.host span) :=
  span_meets hE.spans hn trivial trivial

theorem keeps_targetAt (hn : s₀.Knows n) (depth : Nat) :
    Keeps w K E s₀ (targetAt n depth) (fun s target => Aims w s n depth target) :=
  targetAt_meets hE.spans hn trivial trivial depth

end

end Waymark.Op
