import Waymark.Proofs.Shift.Basic
import Waymark.Proofs.Snapshot.Searching

/-!
# Searches in a text that is moved

Spans that nodes have or borrow are moved with the text. A search goes through the same nodes in both
texts. It may prefer different nodes, for the distance to a node of no place changes; but a node that is
looked for by its own span is as near as can be, so it is singled out in both texts or in none.
-/

namespace Waymark

open Snapshot

variable {ν : Type} {c : UInt32} {host : Host ν} {s s' : Snapshot ν} {n : Node ν}

namespace Best

/-! ## Candidates -/

variable {α : Type}

/-- All that was offered is at a distance, and is not `n`. -/
def IsFar (n : α) (b : Best α) : Prop := ∀ m score, b.found = some (m, score) → score.distance ≠ 0 ∧ m ≠ n

/-- Two searches for `n` stand alike: with the same node at no distance, or both with none. -/
inductive Alike (n : α) : Best α → Best α → Prop where
  | near {m : α} {e : Nat} {tied : Bool} : Alike n ⟨some (m, ⟨0, e⟩), tied⟩ ⟨some (m, ⟨0, e⟩), tied⟩
  | far {b b' : Best α} (h : b.IsFar n) (h' : b'.IsFar n) : Alike n b b'

section
variable {n m : α} {b b' : Best α} {d d' e : Nat}

theorem IsFar.offer_near (h : b.IsFar n) : b.offer m ⟨0, e⟩ = ⟨some (m, ⟨0, e⟩), false⟩ := by
  unfold offer
  split
  · rfl
  · rename_i top htop
    have hd := (h _ top htop).1
    have hne : (⟨0, e⟩ : Score) ≠ top := fun he => hd (he ▸ rfl)
    have hbetter : Score.better ⟨0, e⟩ top = true := by
      simp only [Score.better, Bool.or_eq_true, decide_eq_true_eq]
      omega
    rw [if_neg hne, if_pos hbetter]

theorem IsFar.offer_far (h : b.IsFar n) (hm : m ≠ n) (hd : d ≠ 0) : (b.offer m ⟨d, e⟩).IsFar n := by
  unfold offer
  split
  · rintro _ _ ⟨⟩
    exact ⟨hd, hm⟩
  · rename_i top htop
    split
    · exact fun m' score hm' => h m' score hm'
    split
    · rintro _ _ ⟨⟩
      exact ⟨hd, hm⟩
    · exact h

theorem Alike.offer_near (h : Alike n b b') : Alike n (b.offer m ⟨0, e⟩) (b'.offer m ⟨0, e⟩) := by
  cases h with
  | near =>
    unfold offer
    simp only
    split
    · exact .near
    split
    · exact .near
    · exact .near
  | far h h' =>
    rw [h.offer_near, h'.offer_near]
    exact .near

theorem Alike.offer_far (h : Alike n b b') (hm : m ≠ n) (hd : d ≠ 0) (hd' : d' ≠ 0) :
    Alike n (b.offer m ⟨d, e⟩) (b'.offer m ⟨d', e⟩) := by
  cases h with
  | @near m' e' tied =>
    have worse : ∀ {k : Nat}, k ≠ 0 →
        (⟨some (m', ⟨0, e'⟩), tied⟩ : Best α).offer m ⟨k, e⟩ = ⟨some (m', ⟨0, e'⟩), tied⟩ := by
      intro k hk
      have hbetter : ¬ Score.better ⟨k, e⟩ ⟨0, e'⟩ = true := by
        simp only [Score.better, Bool.or_eq_true, Bool.and_eq_true, decide_eq_true_eq, beq_iff_eq]
        omega
      have hne : (⟨k, e⟩ : Score) ≠ ⟨0, e'⟩ := fun he => hk (Score.mk.inj he).1
      unfold offer
      simp only
      rw [if_neg hne, if_neg hbetter]
    rw [worse hd, worse hd']
    exact .near
  | far h h' => exact .far (h.offer_far hm hd) (h'.offer_far hm hd')

theorem Alike.isSettled (h : Alike n b b') : b'.isSettled = b.isSettled := by
  have open_of_far : ∀ {x : Best α}, x.IsFar n → x.isSettled = false := by
    intro x hx
    unfold Best.isSettled
    split
    · rename_i top htop
      have hne : top ≠ .exact := fun he => (hx _ top htop).1 (he ▸ rfl)
      simp [hne]
    · rfl
  cases h with
  | near => rfl
  | far h h' => rw [open_of_far h, open_of_far h']

theorem Alike.outcome (h : Alike n b b') (strict : Bool) :
    (b'.outcome strict).node? = some n ↔ (b.outcome strict).node? = some n := by
  have other_of_far : ∀ {x : Best α}, x.IsFar n → (x.outcome strict).node? ≠ some n := by
    intro x hx hn
    unfold Best.outcome at hn
    split at hn
    · cases hn
    · rename_i m score hm
      split at hn
      · cases hn
      · cases hn
        exact (hx _ _ hm).2 rfl
  cases h with
  | near => exact Iff.rfl
  | far h h' => exact ⟨fun hn => absurd hn (other_of_far h'), fun hn => absurd hn (other_of_far h)⟩

end

end Best

def Target.shift (c : UInt32) (target : Target) : Target := { target with span := target.span.shift c }

namespace Op

/-! ## Spans -/

def SpanMoves (c : UInt32) (a b : Span) : Prop := b = a.shift c ∧ a.HasRoom c

theorem spanMoves_none : SpanMoves c .none .none := ⟨rfl, Span.hasRoom_none⟩

theorem SpanMoves.isMeaningful {a b : Span} (h : SpanMoves c a b) : b.isMeaningful = a.isMeaningful := by
  rw [h.1, Span.isMeaningful_shift h.2]

theorem SpanMoves.eq_iff {a b x y : Span} (h : SpanMoves c a b) (h' : SpanMoves c x y) :
    b = y ↔ a = x := by
  rw [h.1, h'.1, Span.shift_inj h.2 h'.2]

theorem exec_hostSpan (host : Host ν) (s : Snapshot ν) (n : Node ν) : ∃ j,
    (hostSpan n).exec host s = (.ok (host.reportedSpan s.config.positions n.host), { s with journal := j }) := by
  unfold hostSpan
  rw [exec_bind, exec_get]
  simp only
  cases s.config.positions with
  | packed => exact ⟨_, rfl⟩
  | lineColumn => exact ⟨_, rfl⟩

/-- A span that is not kept yet is from now on. -/
theorem exec_rawSpan (host : Host ν) (hr : (s.slot n).rawSpan = none) : ∃ j,
    (rawSpan n).exec host s = (.ok (host.rawSpan s.config.positions n.host),
      Snapshot.put { s with journal := j } n fun slot =>
        { slot with rawSpan := some (host.rawSpan s.config.positions n.host) }) := by
  have hslot : (slot n).exec host s = (.ok (s.slot n), s) := rfl
  obtain ⟨j, hhost⟩ := exec_hostSpan host s n
  unfold rawSpan
  rw [exec_bind, hslot]
  simp only [hr]
  rw [exec_bind, hhost]
  exact ⟨_, rfl⟩

theorem moves_rawSpan (h : Moved c host s s') (n : Node ν) :
    Moves c host s s' (rawSpan n) (rawSpan n)
      fun t a b => SpanMoves c a b ∧ (n.id < t.size → (t.slot n).rawSpan = some a) := by
  cases hr : (s.slot n).rawSpan with
  | some span =>
    refine Moves.slot_bind h ?_
    have hr' : ((s.slot n).shift c).rawSpan = some (span.shift c) := by simp [Slot.shift, hr]
    simp only [hr, hr']
    exact Moves.pure h ⟨⟨rfl, (h.hasRoom_slot n).rawSpan span hr⟩, fun _ => hr⟩
  | none =>
    have hr' : (s'.slot n).rawSpan = none := by simp [h.slot, Slot.shift, hr]
    obtain ⟨j, hrun⟩ := exec_rawSpan host hr
    obtain ⟨j', hrun'⟩ := exec_rawSpan (host.shift c) hr'
    have hspan' : (host.shift c).rawSpan s'.config.positions n.host =
        (host.rawSpan s.config.positions n.host).shift c := by
      rw [h.config]
      exact h.shiftable.rawSpan_shift n.host
    rw [hspan'] at hrun'
    unfold Moves
    rw [hrun, hrun']
    have hroom := h.shiftable.hasRoom_rawSpan n.host
    have hfresh : s.Retains { s with journal := j } := retains_of_slots_eq rfl rfl
    refine .ok ((h.journal j j').put ?_ ?_ ?_) (hfresh.put ?_ ?_) ⟨⟨rfl, hroom⟩, ?_⟩
    · exact fun _ => rfl
    · intro slot hs
      refine ⟨?_, (h.hasRoom n.id slot hs).recovered⟩
      rintro _ ⟨⟩
      exact hroom
    · exact fun slot p hs hp => h.parents n.id slot p hs hp
    · intro span hspan
      cases hr.symm.trans hspan
    · rintro span ⟨raw, hraw, -⟩
      cases hr.symm.trans hraw
    · intro hlt
      have hlt' : n.id < s.size := by simpa [Snapshot.size, Snapshot.put] using hlt
      exact congrArg Slot.rawSpan (slot_put (s := { s with journal := j }) hlt' rfl)

variable [DecidableEq ν]

theorem steady_firstChild (h : Moved c host s s') (n : Node ν) : Steady c host s s' (firstChild n) := by
  refine (steady_childCount h n).bind fun t t' count ht _ => ?_
  refine Moves.ite .rfl (fun _ => ?_) fun _ => Moves.pure ht rfl
  exact (steady_child ht n 0).bind fun u u' m hu _ => Moves.pure hu rfl

theorem moves_spanAbove : ∀ (fuel : Nat) {s s' : Snapshot ν} (n : Node ν), Moved c host s s' →
    Moves c host s s' (spanAbove fuel n) (spanAbove fuel n) fun _ => SpanMoves c
  | 0, _, _, _, h => Moves.throw h
  | fuel + 1, s, s', n, h => by
    refine (moves_parent h n).bind fun t t' p q ht _ hpq => ?_
    obtain ⟨rfl, -⟩ := hpq
    cases p with
    | none => exact Moves.pure ht spanMoves_none
    | some p =>
      refine (moves_rawSpan ht p).bind fun u u' a b hu _ hab => ?_
      refine Moves.ite (by rw [hab.1.isMeaningful]) (fun _ => Moves.pure hu hab.1) fun _ => ?_
      exact moves_spanAbove fuel p hu

theorem moves_spanBelow : ∀ (fuel visited : Nat) {s s' : Snapshot ν} (n : Node ν), Moved c host s s' →
    Moves c host s s' (spanBelow fuel visited n) (spanBelow fuel visited n) fun _ => SpanMoves c
  | 0, _, _, _, _, h => Moves.throw h
  | fuel + 1, visited, s, s', n, h => by
    refine (steady_firstChild h n).bind fun t t' m ht _ => ?_
    cases m with
    | none => exact Moves.pure ht spanMoves_none
    | some m =>
      refine (steady_boundWalk ht (visited + 1) m).bind fun u u' _ hu _ => ?_
      refine (moves_rawSpan hu m).bind fun x x' a b hx _ hab => ?_
      refine Moves.ite (by rw [hab.1.isMeaningful]) (fun _ => Moves.pure hx hab.1) fun _ => ?_
      exact moves_spanBelow fuel (visited + 1) m hx

theorem moves_stepUp (h : Moved c host s s') (up : Option (Node ν)) :
    Moves c host s s' (stepUp up) (stepUp up) fun _ a b => a.1 = b.1 ∧ SpanMoves c a.2 b.2 := by
  cases up with
  | none => exact Moves.pure h ⟨rfl, spanMoves_none⟩
  | some n =>
    refine (moves_parent h n).bind fun t t' p q ht _ hpq => ?_
    obtain ⟨rfl, -⟩ := hpq
    cases p with
    | none => exact Moves.pure ht ⟨rfl, spanMoves_none⟩
    | some p => exact (moves_rawSpan ht p).bind fun u u' a b hu _ hab => Moves.pure hu ⟨rfl, hab.1⟩

theorem moves_stepDown (h : Moved c host s s') (visited : Nat) (down : Option (Node ν)) :
    Moves c host s s' (stepDown visited down) (stepDown visited down)
      fun _ a b => a.1 = b.1 ∧ SpanMoves c a.2 b.2 := by
  cases down with
  | none => exact Moves.pure h ⟨rfl, spanMoves_none⟩
  | some n =>
    refine (steady_firstChild h n).bind fun t t' m ht _ => ?_
    cases m with
    | none => exact Moves.pure ht ⟨rfl, spanMoves_none⟩
    | some m =>
      refine (steady_boundWalk ht (visited + 1) m).bind fun u u' _ hu _ => ?_
      exact (moves_rawSpan hu m).bind fun x x' a b hx _ hab => Moves.pure hx ⟨rfl, hab.1⟩

theorem moves_spanAround : ∀ (fuel visited : Nat) {s s' : Snapshot ν} (up down : Option (Node ν)),
    Moved c host s s' →
    Moves c host s s' (spanAround fuel visited up down) (spanAround fuel visited up down)
      fun _ => SpanMoves c := by
  intro fuel
  induction fuel with
  | zero =>
    intro visited s s' up down h
    by_cases hne : up = none → down ≠ none
    · rw [spanAround_zero hne]
      exact Moves.throw h
    · obtain ⟨rfl, rfl⟩ : up = none ∧ down = none := by simpa using hne
      exact Moves.pure h spanMoves_none
  | succ fuel ih =>
    intro visited s s' up down h
    by_cases hne : up = none → down ≠ none
    · rw [spanAround_succ hne]
      refine (moves_stepUp h up).bind fun t t' a b ht _ hab => ?_
      obtain ⟨up', span⟩ := a
      obtain ⟨up'', span'⟩ := b
      obtain ⟨rfl, hspan⟩ := hab
      refine Moves.ite (by rw [hspan.isMeaningful]) (fun _ => Moves.pure ht hspan) fun _ => ?_
      refine (moves_stepDown ht visited down).bind fun u u' a b hu _ hab => ?_
      obtain ⟨down', span⟩ := a
      obtain ⟨down'', span'⟩ := b
      obtain ⟨rfl, hspan⟩ := hab
      refine Moves.ite (by rw [hspan.isMeaningful]) (fun _ => Moves.pure hu hspan) fun _ => ?_
      exact ih (visited + 1) _ _ hu
    · obtain ⟨rfl, rfl⟩ : up = none ∧ down = none := by simpa using hne
      rw [spanAround_none]
      exact Moves.pure h spanMoves_none

theorem moves_borrowedSpan (h : Moved c host s s') (strategy : Recovery) (n : Node ν) :
    Moves c host s s' (borrowedSpan strategy n) (borrowedSpan strategy n) fun _ => SpanMoves c := by
  have above : ∀ {t t'}, Moved c host t t' → Moves c host t t' (do spanAbove (← reach) n)
      (do spanAbove (← reach) n) fun _ => SpanMoves c :=
    fun ht => Moves.reach_bind ht fun k => moves_spanAbove k n ht
  have below : ∀ {t t'}, Moved c host t t' → Moves c host t t' (do spanBelow (← reach) 1 n)
      (do spanBelow (← reach) 1 n) fun _ => SpanMoves c :=
    fun ht => Moves.reach_bind ht fun k => moves_spanBelow k 1 n ht
  cases strategy with
  | fail => exact Moves.pure h spanMoves_none
  | parent => exact above h
  | child => exact below h
  | parentThenChild =>
    refine (above h).bind fun t t' a b ht _ hab => ?_
    exact Moves.ite (by rw [hab.isMeaningful]) (fun _ => Moves.pure ht hab) fun _ => below ht
  | childThenParent =>
    refine (below h).bind fun t t' a b ht _ hab => ?_
    exact Moves.ite (by rw [hab.isMeaningful]) (fun _ => Moves.pure ht hab) fun _ => above ht
  | alternate => exact Moves.reach_bind h fun k => moves_spanAround k 1 _ _ h

/-- A borrowed span is kept where none was known. -/
theorem moves_borrow (h : Moved c host s s') {raw : Span}
    (hraw : n.id < s.size → (s.slot n).rawSpan = some raw) (hm : ¬ raw.isMeaningful = true)
    (hnew : ∀ span, ¬ s.Spanned n span) :
    Moves c host s s' (borrow s.config.recovery n) (borrow s.config.recovery n)
      fun t a b => SpanMoves c a b ∧ (n.id < s.size → t.Spanned n a) := by
  have keep : ∀ (host : Host ν) t span, ∃ j, (do
      note (.recovered span (← typeName n) s.config.recovery)
      update n fun slot => { slot with recovered := some (s.config.recovery, span) }
      return span : Op ν Span).exec host t = (.ok span, Snapshot.put { t with journal := j } n
        fun slot => { slot with recovered := some (s.config.recovery, span) }) := fun _ _ _ => ⟨_, rfl⟩
  have hb := moves_borrowedSpan h s.config.recovery n
  unfold Moves borrow at *
  rw [exec_bind, exec_bind]
  generalize (borrowedSpan s.config.recovery n).exec host s = r at hb
  generalize (borrowedSpan s.config.recovery n).exec (host.shift c) s' = r' at hb
  cases hb with
  | error ht hst => exact .error ht hst
  | @ok t t' a b ht hst hab =>
    obtain ⟨rfl, hroom⟩ := hab
    obtain ⟨j, hrun⟩ := keep host t a
    obtain ⟨j', hrun'⟩ := keep (host.shift c) t' (a.shift c)
    simp only
    rw [hrun, hrun']
    have hst' : s.Retains { t with journal := j } := hst.trans (retains_of_slots_eq rfl rfl)
    -- If there is a slot for the node, it was there before.
    have hslot : n.id < s.size → Snapshot.slot (Snapshot.put { t with journal := j } n
        fun slot => { slot with recovered := some (s.config.recovery, a) }) n =
          { t.slot n with recovered := some (s.config.recovery, a) } :=
      fun hlt => slot_put (s := { t with journal := j }) (Nat.lt_of_lt_of_le hlt hst.size) rfl
    refine .ok ((ht.journal j j').put ?_ ?_ ?_) (hst'.put ?_ ?_) ⟨⟨rfl, hroom⟩, ?_⟩
    · exact fun _ => rfl
    · intro slot hs
      refine ⟨(ht.hasRoom n.id slot hs).rawSpan, ?_⟩
      rintro _ ⟨⟩
      exact hroom
    · exact fun slot p hs hp => ht.parents n.id slot p hs hp
    · intro span hspan
      rw [hslot (lt_size_of_rawSpan hspan)]
      exact hst.rawSpan n span hspan
    · exact fun span hspan => absurd hspan (hnew span)
    · intro hlt
      refine ⟨raw, ?_, ?_⟩
      · rw [hslot hlt]
        exact hst.rawSpan n raw (hraw hlt)
      · rw [hslot hlt, if_neg hm]
        show some (s.config.recovery, a) = some (t.config.recovery, a)
        rw [hst.config]

theorem moves_span (h : Moved c host s s') (n : Node ν) : Moves c host s s' (span n) (span n)
    fun t a b => SpanMoves c a b ∧ (n.id < s.size → t.Spanned n a) := by
  refine Moves.get_bind ?_
  rw [h.config]
  refine (moves_rawSpan h n).bind fun t t' raw raw' ht hst hraw => ?_
  obtain ⟨hspan, hkept⟩ := hraw
  have hlater : ∀ {u a}, (n.id < t.size → Spanned u n a) → n.id < s.size → u.Spanned n a :=
    fun hu hlt => hu (Nat.lt_of_lt_of_le hlt hst.size)
  refine Moves.ite (by rw [hspan.isMeaningful]) (fun hm => ?_) fun hm => ?_
  · exact Moves.pure ht ⟨hspan, hlater fun hlt => ⟨raw, hkept hlt, by rw [if_pos hm]⟩⟩
  refine Moves.slot_bind ht ?_
  have borrowed : (∀ span, (t.slot n).recovered ≠ some (s.config.recovery, span)) →
      Moves c host t t' (borrow s.config.recovery n) (borrow s.config.recovery n)
        fun u a b => SpanMoves c a b ∧ (n.id < s.size → u.Spanned n a) := by
    rw [← hst.config]
    intro hnone
    refine (moves_borrow ht hkept hm fun span hsp => ?_).mono fun u a b _ hu => ⟨hu.1, hlater hu.2⟩
    obtain ⟨x, hx, hsp⟩ := hsp
    obtain rfl : x = raw := Option.some.inj (hx.symm.trans (hkept (lt_size_of_rawSpan hx)))
    rw [if_neg hm] at hsp
    exact hnone span hsp
  cases hr : (t.slot n).recovered with
  | none =>
    have hr' : ((t.slot n).shift c).recovered = none := by simp [Slot.shift, hr]
    simp only [hr']
    exact borrowed (by simp [hr])
  | some r =>
    obtain ⟨strategy, span⟩ := r
    have hr' : ((t.slot n).shift c).recovered = some (strategy, span.shift c) := by simp [Slot.shift, hr]
    simp only [hr']
    -- A kept span is used if it comes from the strategy at hand.
    refine Moves.ite .rfl (fun he => ?_) fun he => borrowed ?_
    · refine Moves.pure ht ⟨⟨rfl, (ht.hasRoom_slot n).recovered _ hr⟩, hlater fun hlt => ⟨raw, hkept hlt, ?_⟩⟩
      rw [if_neg hm, hr, he, hst.config]
    · rw [hr]
      rintro _ ⟨⟩
      exact he rfl

/-! ## Targets -/

theorem moves_targetAt (h : Moved c host s s') (n : Node ν) (depth : Nat) :
    Moves c host s s' (targetAt n depth) (targetAt n depth) fun t a b =>
      b = a.shift c ∧ a.span.HasRoom c ∧ (n.id < s.size → t.Spanned n a.span) := by
  refine (steady_key h n).bind fun t t' k ht hst => ?_
  refine (moves_span ht n).bind fun u u' a b hu _ hab => Moves.pure hu ?_
  obtain ⟨⟨rfl, hroom⟩, hspan⟩ := hab
  exact ⟨rfl, hroom, fun hlt => hspan (Nat.lt_of_lt_of_le hlt hst.size)⟩

/-! ## Searching -/

section
variable {target : Target} (hroom : target.span.HasRoom c) (hm : target.span.isMeaningful = true)
include hroom

omit [DecidableEq ν] in
include hm in
theorem moves_isAway (h : Moved c host s s') (n : Node ν) :
    Moves c host s s' (isAway target n) (isAway (target.shift c) n) fun _ a b => a = b := by
  refine (moves_rawSpan h n).bind fun t t' a b ht _ hab => ?_
  obtain ⟨hspan, -⟩ := hab
  have hiff : (b.isMeaningful && !b.overlaps (target.shift c).span) = true ↔
      (a.isMeaningful && !a.overlaps target.span) = true := by
    rw [hspan.isMeaningful]
    by_cases ha : a.isMeaningful = true
    · rw [hspan.1, Target.shift, Span.overlaps_shift hspan.2 hroom ha hm]
    · simp [ha]
  refine Moves.ite hiff (fun _ => ?_) fun _ => Moves.pure ht rfl
  exact Moves.typeName_bind (Moves.note_bind ht fun _ _ hu _ => Moves.pure hu rfl)

theorem moves_consider (h : Moved c host s s') (hn : s.Spanned n target.span) (m : Node ν) (depth : Nat)
    {best best' : Best (Node ν)} (hb : best.Alike n best') :
    Moves c host s s' (consider target m depth best) (consider (target.shift c) m depth best')
      fun _ => Best.Alike n := by
  refine (steady_key h m).bind fun t t' k ht hst => ?_
  refine Moves.ite .rfl (fun _ => ?_) fun _ => Moves.pure ht hb
  refine (moves_span ht m).bind fun u u' a b hu htu hab => Moves.pure hu ?_
  obtain ⟨hspan, hkept⟩ := hab
  have hzero : b.distance (target.shift c).span = 0 ↔ a.distance target.span = 0 := by
    rw [Span.distance_eq_zero, Span.distance_eq_zero]
    exact hspan.eq_iff ⟨rfl, hroom⟩
  by_cases ha : a.distance target.span = 0
  · rw [ha, hzero.2 ha]
    exact hb.offer_near
  · refine hb.offer_far (fun he => ?_) ha fun hb' => ha (hzero.1 hb')
    -- The node that is looked for is at no distance, for its span is kept since the target was made.
    subst he
    have hsp := hst.spanned m target.span hn
    obtain ⟨raw, hraw, -⟩ := id hsp
    have heq : a = target.span := (hkept (lt_size_of_rawSpan hraw)).unique (htu.spanned m _ hsp)
    exact ha (Span.distance_eq_zero.2 heq)

omit hroom in
theorem steady_pushChildren (n : Node ν) (depth : Nat) : ∀ (k : Nat) {s s' : Snapshot ν}
    (stack : List (Node ν × Nat)), Moved c host s s' → Steady c host s s' (pushChildren n depth k stack)
  | 0, _, _, _, h => Moves.pure h rfl
  | k + 1, _, _, _, h =>
    (steady_child h n k).bind fun _ _ _ ht _ => steady_pushChildren n depth k _ ht

include hm in
theorem moves_searchFrom (strict : Bool) (ignore : Option (Node ν)) : ∀ (fuel visited : Nat)
    {s s' : Snapshot ν} (stack : List (Node ν × Nat)) {best best' : Best (Node ν)}, Moved c host s s' →
    s.Spanned n target.span → best.Alike n best' →
    Moves c host s s' (searchFrom target strict ignore fuel visited stack best)
      (searchFrom (target.shift c) strict ignore fuel visited stack best')
      fun _ a b => b.node? = some n ↔ a.node? = some n
  | fuel, _, _, _, [], _, _, h, _, hb => by
    rw [searchFrom, searchFrom]
    exact Moves.pure h (hb.outcome strict)
  | 0, _, _, _, _ :: _, _, _, h, _, _ => Moves.throw h
  | fuel + 1, visited, s, s', (m, depth) :: stack, best, best', h, hn, hb => by
    -- The two stacks are the same all along; only what is best so far may differ.
    have descend : ∀ {t t' : Snapshot ν} {x x' : Best (Node ν)}, Moved c host t t' → s.Retains t →
        x.Alike n x' → Moves c host t t'
          (do
            let stack ← pushChildren m (depth + 1) (← childCount m) stack
            searchFrom target strict ignore fuel (visited + 1) stack x)
          (do
            let stack ← pushChildren m (depth + 1) (← childCount m) stack
            searchFrom (target.shift c) strict ignore fuel (visited + 1) stack x')
          fun _ a b => b.node? = some n ↔ a.node? = some n := by
      intro t t' x x' ht hst hx
      refine (steady_childCount ht m).bind fun u u' count hu htu => ?_
      refine (steady_pushChildren m (depth + 1) count stack hu).bind fun y y' st hy huy => ?_
      exact moves_searchFrom strict ignore fuel (visited + 1) st hy
        (((hst.trans htu).trans huy).spanned n _ hn) hx
    rw [searchFrom, searchFrom]
    refine (steady_boundWalk h (visited + 1) m).bind fun t t' _ ht hst => ?_
    refine Moves.ite .rfl (fun _ => ?_) fun _ => ?_
    · exact moves_searchFrom strict ignore fuel (visited + 1) stack ht (hst.spanned n _ hn) hb
    refine (steady_isExternal ht m).bind fun u u' external hu htu => ?_
    have hsu := hst.trans htu
    refine Moves.ite .rfl (fun _ => descend hu hsu hb) fun _ => ?_
    refine (moves_isAway hroom hm hu m).bind fun x x' away away' hx hux haway => ?_
    subst haway
    have hsx := hsu.trans hux
    refine Moves.ite .rfl (fun _ => ?_) fun _ => ?_
    · exact moves_searchFrom strict ignore fuel (visited + 1) stack hx (hsx.spanned n _ hn) hb
    refine (moves_consider hroom hx (hsx.spanned n _ hn) m depth hb).bind fun y y' b b' hy hxy hb' => ?_
    refine Moves.ite (by rw [hb'.isSettled]) (fun _ => Moves.pure hy ?_) fun _ => descend hy (hsx.trans hxy) hb'
    simp [Match.node?]

end

/-- In both texts the search singles out the node, or in none. -/
theorem moves_isFoundFrom (h : Moved c host s s') {span : Span} (hn : s.Spanned n span)
    (hm : span.isMeaningful = true) (anchor : Node ν) (depth : Nat) :
    Steady c host s s' (isFoundFrom anchor n depth) := by
  obtain ⟨raw, hraw, -⟩ := id hn
  refine (moves_targetAt h n depth).bind fun t t' a b ht hst hab => ?_
  obtain ⟨rfl, hroom, hkept⟩ := hab
  have hspan := hkept (lt_size_of_rawSpan hraw)
  have heq : a.span = span := hspan.unique (hst.spanned n span hn)
  have hsearch : Moves c host t t' (uniqueMatch anchor a) (uniqueMatch anchor (a.shift c))
      fun _ x y => y = some n ↔ x = some n := by
    refine Moves.bind (Moves.reach_bind ht fun k => ?_) fun u u' x y hu _ hxy => Moves.pure hu hxy
    refine moves_searchFrom hroom (heq ▸ hm) true none k 0 _ ht hspan (.far ?_ ?_)
    · exact nofun
    · exact nofun
  refine hsearch.bind fun u u' x y hu _ hxy => Moves.pure hu ?_
  simp [hxy]

end Op

end Waymark
