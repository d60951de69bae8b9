import Waymark.Proofs.Snapshot.Searching
import Waymark.Proofs.View.Rebuild

/-!
# Operations tell what the view says

On the copy of a rebuilt tree, every operation ends as its counterpart does on the view, whatever the
snapshot has learned before: with the same fault, or with results that are the same up to handles and
numbers.
-/

namespace Waymark.Rebuild

open Relation Op Snapshot

variable {ν μ : Type} (B : Rebuild ν μ)

/-! ## Correspondence -/

/-- Any handle may be kept, also one of a node that the view does not have. -/
def Kept : Scope B.copy.host := .all B.copy.host

def Stands (s : Snapshot μ) (n : Node μ) (v : ν) : Prop := s.Names n (B.place v) ∧ B.IsNode v

def Has (s : Snapshot μ) (v : ν) : Prop := B.IsNode v ∧ ∃ i, s.handle? i = some (B.place v)

def Fits {α β : Type} (s₀ : Snapshot μ) (op : Op μ α) (r : Except Fault β)
    (R : Snapshot μ → α → β → Prop) : Prop :=
  Tells B.copy.host (Of B.copy B.Kept) s₀ op r R

variable {B}

theorem Stands.mono {s t : Snapshot μ} {n : Node μ} {v : ν} (h : B.Stands s n v) (hst : s ≤ t) :
    B.Stands t n v :=
  ⟨h.1.mono hst, h.2⟩

theorem rel_mono {s t : Snapshot μ} {o : Option (Node μ)} {p : Option ν}
    (h : Option.Rel (B.Stands s) o p) (hst : s ≤ t) : Option.Rel (B.Stands t) o p := by
  cases h with
  | none => exact .none
  | some h => exact .some (h.mono hst)

theorem Stands.knows {s : Snapshot μ} {n : Node μ} {v : ν} (h : B.Stands s n v) : s.Knows n := h.1.1

theorem Stands.host {s : Snapshot μ} {n : Node μ} {v : ν} (h : B.Stands s n v) : n.host = B.place v :=
  h.1.2

theorem Stands.has {s : Snapshot μ} {n : Node μ} {v : ν} (h : B.Stands s n v) : B.Has s v :=
  ⟨h.2, n.id, h.host ▸ h.knows⟩

theorem Has.mono {s t : Snapshot μ} {v : ν} (h : B.Has s v) (hst : s ≤ t) : B.Has t v := by
  obtain ⟨hv, i, hi⟩ := h
  exact ⟨hv, i, Grows.handle? hst _ _ hi⟩

/-- Nodes are equal if and only if they stand for the same. -/
theorem Stands.eq_iff {s : Snapshot μ} (hs : s.Sound B.copy.host) {m n : Node μ} {u v : ν}
    (hm : B.Stands s m u) (hn : B.Stands s n v) : m = n ↔ u = v := by
  constructor
  · rintro rfl
    exact B.place_inj u v hm.2 hn.2 (hm.host.symm.trans hn.host)
  · rintro rfl
    exact hs.eq_of_host_eq hm.knows hn.knows (hm.host.trans hn.host.symm)

theorem length_le_of_has {s : Snapshot μ} {vs : List ν} (hd : vs.Nodup) (h : ∀ v ∈ vs, B.Has s v) :
    vs.length ≤ s.size := by
  have hd' : (vs.map B.place).Nodup :=
    List.Nodup.map_on (fun u hu v hv he => B.place_inj u v (h u hu).1 (h v hv).1 he) hd
  have hsub : vs.map B.place ⊆ s.slots.toList.map Slot.host := by
    intro u hu
    obtain ⟨v, hv, rfl⟩ := List.mem_map.1 hu
    obtain ⟨-, i, hi⟩ := h v hv
    obtain ⟨slot, hslot, he⟩ := Option.map_eq_some_iff.1 hi
    rw [← he]
    exact List.mem_map_of_mem (Array.mem_toList_iff.2 (Array.mem_of_getElem? hslot))
  simpa [Snapshot.size] using (hd'.subperm hsub).length_le

/-! ## Rules -/

section
variable {α β γ δ : Type} {s₀ s₁ : Snapshot μ} {op : Op μ α} {f : α → Op μ β} {r : Except Fault γ}
variable {g : γ → Except Fault δ} {R R' : Snapshot μ → α → γ → Prop} {S : Snapshot μ → β → δ → Prop}

theorem Fits.pure {a : α} {b : γ} (h : ∀ s, s₀ ≤ s → s.Of B.copy B.Kept → R s a b) :
    B.Fits s₀ (pure a) (.ok b) R :=
  Tells.pure h

/-- What is needed of the snapshot may be taken for granted. -/
theorem Fits.here (h : ∀ s, s₀ ≤ s → s.Of B.copy B.Kept → B.Fits s op r R) : B.Fits s₀ op r R :=
  fun s hs hi => h s hs hi s (le_refl s) hi

theorem Fits.bind (h : B.Fits s₀ op r R)
    (hf : ∀ s a b, s₀ ≤ s → r = .ok b → R s a b → B.Fits s (f a) (g b) S) :
    B.Fits s₀ (op >>= f) (r >>= g) S :=
  Tells.bind h fun s a b hs _ hb hab => hf s a b hs hb hab

theorem Fits.ite {c : Prop} [Decidable c] {op' : Op μ α} {r' : Except Fault γ}
    (h : c → B.Fits s₀ op r R) (h' : ¬ c → B.Fits s₀ op' r' R) :
    B.Fits s₀ (if c then op else op') (if c then r else r') R := by
  by_cases hc : c
  · rw [if_pos hc, if_pos hc]
    exact h hc
  · rw [if_neg hc, if_neg hc]
    exact h' hc

/-- A part that always succeeds. -/
theorem Fits.sure_bind {b : γ} {r : Except Fault δ} (h : B.Fits s₀ op (.ok b) R)
    (hf : ∀ s a, s₀ ≤ s → s.Of B.copy B.Kept → R s a b → B.Fits s (f a) r S) :
    B.Fits s₀ (op >>= f) r S :=
  Meets.bind h.sure fun s a hs hi hab => hf s a hs hi hab

theorem Fits.get_bind {f : Snapshot μ → Op μ β} {r : Except Fault δ}
    (hf : ∀ s, s₀ ≤ s → s.Of B.copy B.Kept → B.Fits s (f s) r S) : B.Fits s₀ (get >>= f) r S :=
  Meets.get_bind hf

theorem Fits.read_bind {f : Host μ → Op μ β} {r : Except Fault δ} (hf : B.Fits s₀ (f B.copy.host) r S) :
    B.Fits s₀ (read >>= f) r S := hf

theorem Fits.reach_bind {f : Nat → Op μ β} {r : Except Fault δ}
    (hf : ∀ k, B.copy.host.size < k → B.Fits s₀ (f k) r S) : B.Fits s₀ (reach >>= f) r S :=
  Meets.reach_bind fun s hs _ => Tells.later (hf _ (by omega)) hs

theorem Fits.typeName_bind {n : Node μ} {v : ν} (hn : B.Stands s₀ n v) {f : String → Op μ β}
    {r : Except Fault δ} (hf : B.Fits s₀ (f (B.view.host.typeName v)) r S) :
    B.Fits s₀ (Op.typeName n >>= f) r S := by
  refine Meets.typeName_bind ?_
  rw [hn.host, B.typeName v hn.2]
  exact hf

theorem Fits.note_bind {e : Event} (h : B.Fits s₀ op r R) : B.Fits s₀ (Op.note e >>= fun _ => op) r R :=
  note_tells h

theorem Fits.boundWalk_bind {n : Node μ} {k : Nat}
    (hk : ∀ s, s₀ ≤ s → k ≤ s.size) (h : B.Fits s₀ op r R) :
    B.Fits s₀ (boundWalk k n >>= fun _ => op) r R := by
  refine Meets.bind (Meets.boundWalk silent_of fun s hs _ hlt => ?_) fun s _ hs _ _ => Tells.later h hs
  exact absurd (hk s hs) (Nat.not_le_of_lt hlt)

end

/-! ## Single nodes -/

section
variable {s₀ : Snapshot μ} {n : Node μ} {v : ν} (hn : B.Stands s₀ n v)
include hn

theorem fits_childCount : B.Fits s₀ (Op.childCount n) (B.view.childCount v) (fun _ a b => a = b) := by
  have h := childCount_tells (w := B.copy) (K := B.Kept) hn.knows
  rw [View.childCount, hn.host, B.childCount v hn.2] at h
  exact h

theorem fits_label : B.Fits s₀ (Op.label n) (.ok (B.view.host.shownLabel v)) (fun _ a b => a = b) := by
  have h := label_tells (w := B.copy) (K := B.Kept) hn.knows
  rwa [hn.host, B.shownLabel hn.2] at h

theorem fits_isExternal :
    B.Fits s₀ (Op.isExternal n) (.ok (B.view.host.isExternal v)) (fun _ a b => a = b) := by
  have h := isExternal_tells (w := B.copy) (K := B.Kept) hn.knows
  rwa [hn.host, B.isExternal hn.2] at h

theorem fits_isVisible :
    B.Fits s₀ (Op.isVisible n) (.ok (B.view.host.isVisible v)) (fun _ a b => a = b) := by
  have h := isVisible_tells (w := B.copy) (K := B.Kept) hn.knows
  rwa [hn.host, B.isVisible hn.2] at h

theorem fits_typeTag : B.Fits s₀ (Op.typeTag n) (.ok (B.view.host.typeName v)) Tags := by
  have h := typeTag_tells (w := B.copy) (K := B.Kept) hn.knows
  rwa [hn.host, B.typeName v hn.2] at h

theorem fits_key : B.Fits s₀ (Op.key n) (.ok (B.view.mark v)) Marks := by
  have h := key_tells (w := B.copy) (K := B.Kept) hn.knows
  rwa [hn.host, B.mark hn.2] at h

theorem fits_rawSpan : B.Fits s₀ (Op.rawSpan n) (.ok (B.view.rawSpan v)) (fun _ a b => a = b) := by
  have h := rawSpan_tells (w := B.copy) (K := B.Kept) hn.knows
  rwa [hn.host, B.rawSpan hn.2] at h

end

/-! ## Neighbours -/

section
variable [DecidableEq μ] {s₀ : Snapshot μ} {n : Node μ} {v : ν} (hn : B.Stands s₀ n v)
include hn

theorem fits_child (i : Nat) : B.Fits s₀ (Op.child n i) (B.view.child v i) B.Stands := by
  have h := child_tells (w := B.copy) (K := B.Kept) hn.knows i
  rw [hn.host, B.child_place hn.2] at h
  refine Tells.mono h.of_map fun s c u _ _ hu hc => ?_
  exact ⟨hc, B.closed.child v i u hn.2 (View.child_eq_ok.1 hu)⟩

theorem fits_children :
    B.Fits s₀ (Op.children n) (B.view.children v) (fun s cs us => List.Forall₂ (B.Stands s) cs us) := by
  refine (fits_childCount hn).bind ?_
  rintro s count _ hs - rfl
  refine Tells.mapM (S := fun s i j => i = j ∧ B.Stands s n v) ?_ ?_ ?_ ?_
  · exact fun s t i j hst h => ⟨h.1, h.2.mono hst⟩
  · exact fun s t c u hst h => h.mono hst
  · rintro t i _ ⟨rfl, hn'⟩
    exact fits_child hn' i
  · exact List.forall₂_same.2 fun i _ => ⟨rfl, hn.mono hs⟩

end

theorem parents_place {v : ν} (hv : B.IsNode v) {u : μ}
    (h : TransGen B.copy.host.HasParent (B.place v) u) :
    ∃ x, u = B.place x ∧ B.IsNode x ∧ TransGen B.view.host.HasParent v x := by
  have step : ∀ x u, B.IsNode x → B.copy.host.HasParent (B.place x) u →
      ∃ y, u = B.place y ∧ B.IsNode y ∧ B.view.host.HasParent x y := by
    intro x u hx hu
    unfold Host.HasParent at hu
    rw [B.parent x hx] at hu
    cases hp : B.view.host.parent x with
    | error m => simp [hp, Except.map] at hu
    | ok p =>
      cases p with
      | none => simp [hp, Except.map] at hu
      | some y =>
        simp only [hp, Except.map, Option.map_some, Except.ok.injEq, Option.some.injEq] at hu
        exact ⟨y, hu.symm, B.closed.parent x y hx hp, hp⟩
  induction h with
  | single h =>
    obtain ⟨y, rfl, hy, hvy⟩ := step v _ hv h
    exact ⟨y, rfl, hy, .single hvy⟩
  | tail _ h ih =>
    obtain ⟨x, rfl, hx, hvx⟩ := ih
    obtain ⟨y, rfl, hy, hxy⟩ := step x _ hx h
    exact ⟨y, rfl, hy, hvx.tail hxy⟩

section
variable [DecidableEq μ] {s₀ : Snapshot μ} {n : Node μ} {v : ν} (hn : B.Stands s₀ n v)
include hn

theorem fits_parent :
    B.Fits s₀ (Op.parent n) (B.view.parent v) (fun s p q => Option.Rel (B.Stands s) p q) := by
  have h := parent_meets (w := B.copy) (K := B.Kept) hn.knows
  refine Meets.mono h ?_ ?_
  · rintro s p _ _ ⟨b, hb, hpb, -⟩
    rw [hn.host, B.parent_place hn.2] at hb
    cases hp : B.view.parent v with
    | error m => simp [hp, Except.map] at hb
    | ok q =>
      simp only [hp, Except.map, Except.ok.injEq] at hb
      refine ⟨q, rfl, ?_⟩
      subst hb
      cases q with
      | none =>
        cases hpb
        exact .none
      | some u =>
        cases hpb with
        | some hm => exact .some ⟨hm, B.closed.parent v u hn.2 (View.parent_eq_ok.1 hp)⟩
  · rintro e (he | ⟨-, hcircle⟩)
    · rw [hn.host, B.parent_place hn.2] at he
      cases hp : B.view.parent v with
      | error m => simpa [hp, Except.map] using he
      | ok q => simp [hp, Except.map] at he
    · rw [hn.host] at hcircle
      obtain ⟨x, hx, hnx, hvx⟩ := parents_place hn.2 hcircle
      rw [B.place_inj v x hn.2 hnx hx] at hvx
      exact absurd hvx (B.orderly.parents x hnx)

theorem fits_firstChild :
    B.Fits s₀ (firstChild n) (B.view.firstChild v) (fun s c u => Option.Rel (B.Stands s) c u) := by
  refine (fits_childCount hn).bind ?_
  rintro s count _ hs - rfl
  refine Fits.ite (fun _ => ?_) fun _ => Fits.pure fun _ _ _ => .none
  refine (fits_child (hn.mono hs) 0).bind fun t c u _ _ hcu => Fits.pure fun x hx _ => ?_
  exact .some (hcu.mono hx)

end

/-! ## Borrowed spans -/

section
variable [DecidableEq μ]

theorem fits_spanAbove : ∀ (fuel fuel' : Nat) {s₀ : Snapshot μ} {n : Node μ} {start v : ν} {seen : List ν},
    B.Stands s₀ n v → B.Trail B.view.host.HasParent start seen v →
    B.copy.host.size < seen.length + fuel → B.view.host.size < seen.length + fuel' →
    B.Fits s₀ (spanAbove fuel n) (B.view.spanAbove fuel' v) (fun _ a b => a = b)
  | 0, _, _, _, _, _, _, _, ht, hf, _ => by
    have := ht.length_le
    omega
  | _ + 1, 0, _, _, _, _, _, _, ht, _, hf => by
    have := ht.length_le
    omega
  | fuel + 1, fuel' + 1, s₀, n, start, v, seen, hn, ht, hf, hf' => by
    refine (fits_parent hn).bind fun s p q hs hq hpq => ?_
    cases hpq with
    | none => exact Fits.pure fun _ _ _ => rfl
    | @some p u hpu =>
      have hparent := View.parent_eq_ok.1 hq
      have ht' := ht.next hparent (inBoth_parent hn.2 hparent) (B.orderly.parents u hpu.2)
      refine (fits_rawSpan hpu).sure_bind ?_
      rintro t _ ht₁ - rfl
      refine Fits.ite (fun _ => Fits.pure fun _ _ _ => rfl) fun _ => ?_
      exact fits_spanAbove fuel fuel' (hpu.mono ht₁) ht' (by simp; omega) (by simp; omega)

def HasAll (B : Rebuild ν μ) (s : Snapshot μ) (vs : List ν) : Prop := ∀ v ∈ vs, B.Has s v

omit [DecidableEq μ] in
theorem HasAll.mono {s t : Snapshot μ} {vs : List ν} (h : B.HasAll s vs) (hst : s ≤ t) : B.HasAll t vs :=
  fun v hv => (h v hv).mono hst

omit [DecidableEq μ] in
theorem HasAll.cons {s : Snapshot μ} {v : ν} {vs : List ν} (hv : B.Has s v) (h : B.HasAll s vs) :
    B.HasAll s (v :: vs) := by
  intro x hx
  rcases List.mem_cons.1 hx with rfl | hx
  · exact hv
  · exact h x hx

def Descends (B : Rebuild ν μ) (s : Snapshot μ) (start : ν) (k : Nat) (v : ν) : Prop :=
  ∃ seen, B.Trail B.view.host.IsChild start seen v ∧ B.HasAll s (start :: seen) ∧ seen.length = k

omit [DecidableEq μ] in
theorem Descends.first {s : Snapshot μ} {v : ν} (hv : B.Has s v) : B.Descends s v 0 v :=
  ⟨[], .nil, .cons hv (by simp [HasAll]), rfl⟩

section
variable {s t : Snapshot μ} {start v u : ν} {k : Nat} (h : B.Descends s start k v)
include h

omit [DecidableEq μ] in
theorem Descends.mono (hst : s ≤ t) : B.Descends t start k v := by
  obtain ⟨seen, ht, hall, hlen⟩ := h
  exact ⟨seen, ht, hall.mono hst, hlen⟩

omit [DecidableEq μ] in
theorem Descends.next (hv : B.IsNode v) (hl : B.view.host.Lists v 0 u) (hu : B.Has s u) :
    B.Descends s start (k + 1) u := by
  obtain ⟨seen, ht, hall, rfl⟩ := h
  refine ⟨u :: seen, ht.next ⟨0, hl⟩ (inBoth_child hv hl) (B.orderly.children u hu.1), ?_, rfl⟩
  intro x hx
  have hall' : B.HasAll s (u :: start :: seen) := .cons hu hall
  exact hall' x (by simpa [or_left_comm] using hx)

omit [DecidableEq μ] in
theorem Descends.length_le : k ≤ B.view.host.size ∧ k ≤ B.copy.host.size := by
  obtain ⟨seen, ht, -, rfl⟩ := h
  exact ht.length_le

omit [DecidableEq μ] in
theorem Descends.lt_size : k < s.size := by
  obtain ⟨seen, ht, hall, rfl⟩ := h
  exact length_le_of_has ht.nodup hall

end

theorem fits_spanBelow : ∀ (fuel fuel' : Nat) {k : Nat} {s₀ : Snapshot μ} {n : Node μ} {start v : ν},
    B.Stands s₀ n v → B.Descends s₀ start k v → B.copy.host.size < k + fuel →
    B.view.host.size < k + fuel' →
    B.Fits s₀ (spanBelow fuel (k + 1) n) (B.view.spanBelow fuel' v) (fun _ a b => a = b)
  | 0, _, _, _, _, _, _, _, hd, hf, _ => by
    have := hd.length_le
    omega
  | _ + 1, 0, _, _, _, _, _, _, hd, _, hf => by
    have := hd.length_le
    omega
  | fuel + 1, fuel' + 1, k, s₀, n, start, v, hn, hd, hf, hf' => by
    refine (fits_firstChild hn).bind fun s c q hs hq hcq => ?_
    cases hcq with
    | none => exact Fits.pure fun _ _ _ => rfl
    | @some c u hcu =>
      have hd' := (hd.mono hs).next hn.2 (View.firstChild_eq_ok hq) hcu.has
      refine Fits.boundWalk_bind (fun t hst => (hd'.mono hst).lt_size) ((fits_rawSpan hcu).sure_bind ?_)
      rintro t _ hst - rfl
      refine Fits.ite (fun _ => Fits.pure fun _ _ _ => rfl) fun _ => ?_
      exact fits_spanBelow fuel fuel' (hcu.mono hst) (hd'.mono hst) (by omega) (by omega)

theorem fits_stepUp {s₀ : Snapshot μ} {up : Option (Node μ)} {up' : Option ν}
    (hu : Option.Rel (B.Stands s₀) up up') :
    B.Fits s₀ (stepUp up) (B.view.stepUp up')
      (fun s a b => Option.Rel (B.Stands s) a.1 b.1 ∧ a.2 = b.2) := by
  cases hu with
  | none => exact Fits.pure fun _ _ _ => ⟨.none, rfl⟩
  | some hn =>
    refine (fits_parent hn).bind fun s p q _ _ hpq => ?_
    cases hpq with
    | none => exact Fits.pure fun _ _ _ => ⟨.none, rfl⟩
    | some hpu =>
      refine (fits_rawSpan hpu).sure_bind ?_
      rintro t _ ht - rfl
      exact Fits.pure fun x hx _ => ⟨.some (hpu.mono (le_trans ht hx)), rfl⟩

theorem fits_stepDown {s₀ : Snapshot μ} {down : Option (Node μ)} {down' : Option ν} {start : ν} {k : Nat}
    (hd : Option.Rel (B.Stands s₀) down down') (hk : ∀ v, down' = some v → B.Descends s₀ start k v) :
    B.Fits s₀ (stepDown (k + 1) down) (B.view.stepDown down')
      (fun s a b => Option.Rel (B.Stands s) a.1 b.1 ∧ a.2 = b.2 ∧
        ∀ v, b.1 = some v → B.Descends s start (k + 1) v) := by
  cases hd with
  | none => exact Fits.pure fun _ _ _ => ⟨.none, rfl, nofun⟩
  | @some n v hn =>
    refine (fits_firstChild hn).bind fun s c q hs hq hcq => ?_
    cases hcq with
    | none => exact Fits.pure fun _ _ _ => ⟨.none, rfl, nofun⟩
    | @some c u hcu =>
      have hd' := ((hk v rfl).mono hs).next hn.2 (View.firstChild_eq_ok hq) hcu.has
      refine Fits.boundWalk_bind (fun t hst => (hd'.mono hst).lt_size) ((fits_rawSpan hcu).sure_bind ?_)
      rintro t _ hst - rfl
      refine Fits.pure fun x hx _ => ⟨.some (hcu.mono (le_trans hst hx)), rfl, ?_⟩
      rintro _ ⟨⟩
      exact hd'.mono (le_trans hst hx)

omit [DecidableEq μ] in
theorem Descends.gone {s : Snapshot μ} {start v : ν} {k : Nat} (h : B.Descends s start k v)
    (hv : B.IsNode v) : B.Gone B.view.host.IsChild start k v := by
  obtain ⟨seen, ht, -, hlen⟩ := h
  exact ⟨hv, seen, ht, hlen⟩

theorem fits_spanAround (start : ν) : ∀ (fuel fuel' k : Nat) {s₀ : Snapshot μ}
    {up down : Option (Node μ)} {up' down' : Option ν}, Option.Rel (B.Stands s₀) up up' →
    Option.Rel (B.Stands s₀) down down' → (∀ v ∈ up', B.Gone B.view.host.HasParent start k v) →
    (∀ v ∈ down', B.Descends s₀ start k v) → B.copy.host.size < k + fuel →
    B.view.host.size < k + fuel' →
    B.Fits s₀ (spanAround fuel (k + 1) up down) (B.view.spanAround fuel' up' down')
      (fun _ a b => a = b) := by
  intro fuel
  have gone : ∀ {s₀ : Snapshot μ} {down : Option (Node μ)} {down' : Option ν} {k : Nat},
      Option.Rel (B.Stands s₀) down down' → (∀ v ∈ down', B.Descends s₀ start k v) →
      ∀ v ∈ down', B.Gone B.view.host.IsChild start k v := by
    rintro s₀ down _ k hdown hd v rfl
    cases hdown with
    | some hn => exact (hd v rfl).gone hn.2
  induction fuel with
  | zero =>
    intro fuel' k s₀ up down up' down' hup hdown hu hd hf _
    by_cases hend : up' = none ∧ down' = none
    · obtain ⟨rfl, rfl⟩ := hend
      cases hup
      cases hdown
      rw [spanAround_none, View.spanAround_none]
      exact Fits.pure fun _ _ _ => rfl
    · have := Gone.either hu (gone hdown hd) fun h h' => hend ⟨h, h'⟩
      omega
  | succ fuel ih =>
    intro fuel' k s₀ up down up' down' hup hdown hu hd hf hf'
    by_cases hend : up' = none ∧ down' = none
    · obtain ⟨rfl, rfl⟩ := hend
      cases hup
      cases hdown
      rw [spanAround_none, View.spanAround_none]
      exact Fits.pure fun _ _ _ => rfl
    have hne' : up' = none → down' ≠ none := fun h h' => hend ⟨h, h'⟩
    have hne : up = none → down ≠ none := by
      rintro rfl rfl
      cases hup
      cases hdown
      exact hne' rfl rfl
    have hle := Gone.either hu (gone hdown hd) hne'
    cases fuel' with
    | zero => omega
    | succ fuel' =>
      rw [spanAround_succ hne, View.spanAround_succ hne']
      refine (fits_stepUp hup).bind ?_
      rintro s ⟨p, span⟩ ⟨q, _⟩ hs hq ⟨hpq, rfl⟩
      refine Fits.ite (fun _ => Fits.pure fun _ _ _ => rfl) fun _ => ?_
      refine (fits_stepDown (rel_mono hdown hs) fun v hv => (hd v hv).mono hs).bind ?_
      rintro t ⟨c, span'⟩ ⟨e, _⟩ ht he ⟨hce, rfl, hdesc⟩
      refine Fits.ite (fun _ => Fits.pure fun _ _ _ => rfl) fun _ => ?_
      exact ih fuel' (k + 1) (rel_mono hpq ht) hce (Gone.up hu hq) hdesc (by omega) (by omega)

theorem fits_borrowedSpan {s₀ : Snapshot μ} {n : Node μ} {v : ν} (hn : B.Stands s₀ n v)
    (strategy : Recovery) :
    B.Fits s₀ (borrowedSpan strategy n) (B.view.borrowedSpan strategy v) (fun _ a b => a = b) := by
  have hview : B.view.host.size < B.view.reach := by simp [View.reach]
  have above : ∀ s, s₀ ≤ s → B.Fits s (do spanAbove (← reach) n) (B.view.spanAbove B.view.reach v)
      (fun _ a b => a = b) := by
    intro s hs
    refine Fits.reach_bind fun k hk => fits_spanAbove k _ (hn.mono hs) Trail.nil ?_ ?_
    · simpa using hk
    · simpa using hview
  have below : ∀ s, s₀ ≤ s → B.Fits s (do spanBelow (← reach) 1 n) (B.view.spanBelow B.view.reach v)
      (fun _ a b => a = b) := by
    intro s hs
    refine Fits.reach_bind fun k hk => fits_spanBelow k _ (hn.mono hs) (.first (hn.mono hs).has) ?_ ?_
    · simpa using hk
    · simpa using hview
  have either : ∀ (first second : Op μ Span) (r r' : Except Fault Span),
      (∀ s, s₀ ≤ s → B.Fits s first r (fun _ a b => a = b)) →
      (∀ s, s₀ ≤ s → B.Fits s second r' (fun _ a b => a = b)) →
      B.Fits s₀ (do let span ← first; if span.isMeaningful then return span else second)
        (do let span ← r; if span.isMeaningful then return span else r') (fun _ a b => a = b) := by
    intro first second r r' h h'
    refine (h s₀ (le_refl s₀)).bind ?_
    rintro s span _ hs - rfl
    exact Fits.ite (fun _ => Fits.pure fun _ _ _ => rfl) fun _ => h' s hs
  cases strategy with
  | fail => exact Fits.pure fun _ _ _ => rfl
  | parent => exact above s₀ (le_refl s₀)
  | child => exact below s₀ (le_refl s₀)
  | parentThenChild => exact either _ _ _ _ above below
  | childThenParent => exact either _ _ _ _ below above
  | alternate =>
    refine Fits.reach_bind fun k hk => fits_spanAround v k _ 0 (.some hn) (.some hn) ?_ ?_ ?_ ?_
    · rintro _ ⟨⟩
      exact .first hn.2
    · rintro _ ⟨⟩
      exact .first hn.has
    · simpa using hk
    · simpa using hview

/-- What is borrowed may be kept. -/
theorem fits_borrow {s₀ : Snapshot μ} {n : Node μ} {v : ν} (hn : B.Stands s₀ n v) (strategy : Recovery) :
    B.Fits s₀ (borrow strategy n) (B.view.borrowedSpan strategy v) (fun _ a b => a = b) := by
  have hboth := Meets.both (fits_borrowedSpan hn strategy)
    (keeps_borrowedSpan (Excuses.all B.copy.host).spans hn.knows trivial trivial strategy)
  refine Meets.bind (Meets.mono hboth (fun _ _ _ _ h => h) fun e he => he.1) ?_
  rintro s span hs - ⟨⟨_, hview, rfl⟩, hborrows⟩
  rw [hview]
  refine Fits.typeName_bind (hn.mono hs) (Fits.note_bind (Tells.skip (meets_update (hn.mono hs).knows ?_ ?_ ?_ ?_)
    (Fits.pure fun _ _ _ => rfl)))
  · exact fun _ => rfl
  · exact fun _ => rfl
  · exact fun _ _ _ hslot => { hslot with }
  · rintro _ _ _ ⟨⟩
    exact .inr hborrows

theorem fits_spanWith {s₀ : Snapshot μ} {n : Node μ} {v : ν} (hn : B.Stands s₀ n v) (strategy : Recovery) :
    B.Fits s₀ (spanWith strategy n) (B.view.spanWith strategy v) (fun _ a b => a = b) := by
  refine (fits_rawSpan hn).sure_bind ?_
  rintro s _ hs - rfl
  unfold View.spanWith
  refine Fits.ite (fun _ => Fits.pure fun _ _ _ => rfl) fun _ => ?_
  refine Meets.slot_bind fun t ht hi => ?_
  have hnt := hn.mono (le_trans hs ht)
  cases hr : (t.slot n).recovered with
  | none => exact fits_borrow hnt strategy
  | some r =>
    obtain ⟨st, span⟩ := r
    simp only
    split
    · rename_i hst
      subst hst
      have hborrows := hi.recovered n.id _ st span hnt.knows.slot_mem.1 hr
      rw [hnt.knows.slot_mem.2, hn.host] at hborrows
      rw [borrowedSpan_of_borrows hn.2 hborrows]
      exact Fits.pure fun _ _ _ => rfl
    · exact fits_borrow hnt strategy

theorem fits_span {s₀ : Snapshot μ} {n : Node μ} {v : ν} (hn : B.Stands s₀ n v) :
    B.Fits s₀ (span n) (B.view.span v) (fun _ a b => a = b) := by
  refine Fits.get_bind fun s hs hi => ?_
  rw [hi.config, B.config]
  exact fits_spanWith (hn.mono hs) _

end

/-! ## Searching -/

variable (B) in
def StandsWith {α : Type} (s : Snapshot μ) (x : Node μ × α) (y : ν × α) : Prop :=
  B.Stands s x.1 y.1 ∧ x.2 = y.2

theorem StandsWith.mono {α : Type} {s t : Snapshot μ} {x : Node μ × α} {y : ν × α}
    (h : B.StandsWith s x y) (hst : s ≤ t) : B.StandsWith t x y :=
  ⟨h.1.mono hst, h.2⟩

theorem stack_mono {α : Type} {s t : Snapshot μ} {xs : List (Node μ × α)} {ys : List (ν × α)}
    (h : List.Forall₂ (B.StandsWith s) xs ys) (hst : s ≤ t) : List.Forall₂ (B.StandsWith t) xs ys :=
  h.imp fun _ _ h => h.mono hst

variable (B) in
structure SameBest (s : Snapshot μ) (b : Best (Node μ)) (b' : Best ν) : Prop where
  found : Option.Rel (B.StandsWith s) b.found b'.found
  tied : b.tied = b'.tied

theorem SameBest.mono {s t : Snapshot μ} {b : Best (Node μ)} {b' : Best ν} (h : B.SameBest s b b')
    (hst : s ≤ t) : B.SameBest t b b' := by
  obtain ⟨found, tied⟩ := b
  obtain ⟨found', tied'⟩ := b'
  obtain ⟨hf, ht⟩ := h
  cases hf with
  | none => exact ⟨.none, ht⟩
  | some h => exact ⟨.some (h.mono hst), ht⟩

theorem SameBest.offer {s : Snapshot μ} {b : Best (Node μ)} {b' : Best ν} (h : B.SameBest s b b')
    {n : Node μ} {v : ν} (hn : B.Stands s n v) (score : Score) :
    B.SameBest s (b.offer n score) (b'.offer v score) := by
  obtain ⟨found, tied⟩ := b
  obtain ⟨found', tied'⟩ := b'
  obtain ⟨hf, rfl⟩ := h
  unfold Best.offer
  cases hf with
  | none => exact ⟨.some ⟨hn, rfl⟩, rfl⟩
  | @some x y hxy =>
    obtain ⟨m, top⟩ := x
    obtain ⟨u, top'⟩ := y
    obtain ⟨hmu, rfl⟩ := hxy
    simp only
    split
    · exact ⟨.some ⟨hmu, rfl⟩, rfl⟩
    split
    · exact ⟨.some ⟨hn, rfl⟩, rfl⟩
    · exact ⟨.some ⟨hmu, rfl⟩, rfl⟩

theorem SameBest.isSettled {s : Snapshot μ} {b : Best (Node μ)} {b' : Best ν} (h : B.SameBest s b b') :
    b.isSettled = b'.isSettled := by
  obtain ⟨found, tied⟩ := b
  obtain ⟨found', tied'⟩ := b'
  obtain ⟨hf, rfl⟩ := h
  unfold Best.isSettled
  cases hf with
  | none => rfl
  | some hxy => simp only [hxy.2]

variable (B) in
inductive SameMatch (s : Snapshot μ) : Match (Node μ) → Match ν → Prop where
  | none : SameMatch s .none .none
  | best {n : Node μ} {v : ν} (h : B.Stands s n v) (score : Score) : SameMatch s (.best n score) (.best v score)
  | ambiguous : SameMatch s .ambiguous .ambiguous

theorem SameMatch.node? {s : Snapshot μ} {m : Match (Node μ)} {m' : Match ν} (h : B.SameMatch s m m') :
    Option.Rel (B.Stands s) m.node? m'.node? := by
  cases h with
  | none => exact .none
  | best h score => exact .some h
  | ambiguous => exact .none

theorem SameBest.outcome {s : Snapshot μ} {b : Best (Node μ)} {b' : Best ν} (h : B.SameBest s b b')
    (strict : Bool) : B.SameMatch s (b.outcome strict) (b'.outcome strict) := by
  obtain ⟨found, tied⟩ := b
  obtain ⟨found', tied'⟩ := b'
  obtain ⟨hf, rfl⟩ := h
  unfold Best.outcome
  cases hf with
  | none => exact .none
  | @some x y hxy =>
    obtain ⟨m, top⟩ := x
    obtain ⟨u, top'⟩ := y
    obtain ⟨hmu, rfl⟩ := hxy
    simp only
    split
    · exact .ambiguous
    · exact .best hmu top

theorem fits_targetOf {s₀ : Snapshot μ} (f : Fingerprint) :
    B.Fits s₀ (targetOf f) (.ok (B.view.soughtOf f)) SameTarget := by
  have hsought : B.copy.soughtOf f = B.view.soughtOf f := by
    unfold View.soughtOf
    rw [B.config]
  exact Meets.mono (keeps_targetOf (E := fun _ => False) f) (fun _ _ _ _ ht => ⟨_, rfl, hsought ▸ ht⟩) nofun

theorem fits_isAway {s₀ : Snapshot μ} {n : Node μ} {v : ν} (hn : B.Stands s₀ n v) {t : Target}
    {t' : View.Sought} (ht : t.span = t'.span) :
    B.Fits s₀ (isAway t n) (.ok (B.view.isAway t' v)) (fun _ a b => a = b) := by
  refine (fits_rawSpan hn).sure_bind ?_
  rintro s _ hs - rfl
  unfold View.isAway
  rw [ht]
  split
  · rename_i h
    rw [h]
    exact Fits.typeName_bind (hn.mono hs) (Fits.note_bind (Fits.pure fun _ _ _ => rfl))
  · rename_i h
    rw [eq_false_of_ne_true h]
    exact Fits.pure fun _ _ _ => rfl

section
variable [DecidableEq μ]

theorem fits_targetAt {s₀ : Snapshot μ} {n : Node μ} {v : ν} (hn : B.Stands s₀ n v) (depth : Nat) :
    B.Fits s₀ (targetAt n depth) (B.view.soughtAt v depth) SameTarget := by
  refine (fits_key hn).sure_bind fun s k hs _ hk => ?_
  refine (fits_span (hn.mono hs)).bind ?_
  rintro t span _ ht - rfl
  exact Fits.pure fun u hu _ => ⟨hk.mono (le_trans ht hu), rfl, rfl⟩

theorem fits_pushChildren {n : Node μ} {v : ν} (depth : Nat) : ∀ (i : Nat) {s₀ : Snapshot μ}
    {stack : List (Node μ × Nat)} {stack' : List (ν × Nat)}, B.Stands s₀ n v →
    List.Forall₂ (B.StandsWith s₀) stack stack' →
    B.Fits s₀ (pushChildren n depth i stack) (B.view.pushChildren v depth i stack')
      (fun s st st' => List.Forall₂ (B.StandsWith s) st st')
  | 0, _, _, _, _, hst => Fits.pure fun _ hs _ => stack_mono hst hs
  | i + 1, _, _, _, hn, hst => by
    refine (fits_child hn i).bind fun s c u hs _ hcu => ?_
    exact fits_pushChildren depth i (hn.mono hs) (.cons ⟨hcu, rfl⟩ (stack_mono hst hs))

theorem fits_consider {s₀ : Snapshot μ} {n : Node μ} {v : ν} (hn : B.Stands s₀ n v) {t : Target}
    {t' : View.Sought} (ht : SameTarget s₀ t t') (depth : Nat) {best : Best (Node μ)} {best' : Best ν}
    (hb : B.SameBest s₀ best best') :
    B.Fits s₀ (consider t n depth best) (B.view.consider t' v depth best') B.SameBest := by
  refine (fits_key hn).sure_bind fun s k hs hi hk => ?_
  have hiff := key_eq_iff hk (ht.1.mono hs)
  unfold View.consider
  by_cases hm : B.view.mark v = t'.mark
  · rw [if_pos hm, if_pos (hiff.2 hm)]
    refine (fits_span (hn.mono hs)).bind ?_
    rintro x span _ hx - rfl
    rw [ht.2.1, ht.2.2]
    exact Fits.pure fun y hy _ =>
      (hb.mono (le_trans hs (le_trans hx hy))).offer (hn.mono (le_trans hs (le_trans hx hy))) _
  · rw [if_neg hm, if_neg fun h => hm (hiff.1 h)]
    exact Fits.pure fun x hx _ => hb.mono (le_trans hs hx)

variable [DecidableEq ν]

theorem fits_searchFrom {t : Target} {t' : View.Sought} {strict : Bool} {ignore : Option (Node μ)}
    {ignore' : Option ν} {start : ν} (hstart : B.IsNode start) : ∀ (fuel fuel' : Nat) {s₀ : Snapshot μ}
    {stack : List (Node μ × Nat)} {stack' : List (ν × Nat)} (seen : List ν) {best : Best (Node μ)}
    {best' : Best ν}, SameTarget s₀ t t' → Option.Rel (B.Stands s₀) ignore ignore' →
    List.Forall₂ (B.StandsWith s₀) stack stack' → B.SameBest s₀ best best' →
    B.Sweep start seen (stack'.map Prod.fst) → B.HasAll s₀ seen →
    B.copy.host.size < seen.length + fuel → B.view.host.size < seen.length + fuel' →
    B.Fits s₀ (searchFrom t strict ignore fuel seen.length stack best)
      (B.view.searchFrom t' strict ignore' fuel' stack' best') B.SameMatch
  | fuel, fuel', s₀, _, _, seen, best, best', _, _, .nil, hb, _, _, _, _ => by
    rw [searchFrom, View.searchFrom]
    exact Fits.pure fun s hs _ => (hb.mono hs).outcome strict
  | 0, _, _, _, (v, d) :: _, seen, _, _, _, _, .cons _ _, _, hsweep, _, hf, _ => by
    have := hsweep.skip.length_le
    simp only [List.length_cons] at this
    omega
  | _ + 1, 0, _, _, (v, d) :: _, seen, _, _, _, _, .cons _ _, _, hsweep, _, _, hf => by
    have := hsweep.skip.length_le
    simp only [List.length_cons] at this
    omega
  | fuel + 1, fuel' + 1, s₀, (n, depth) :: stack, (v, depth') :: stack', seen, best, best', htarget, hign,
      .cons hn hst, hb, hsweep, hall, hf, hf' => by
    obtain ⟨hn, rfl⟩ := hn
    have hall' : B.HasAll s₀ (v :: seen) := .cons hn.has hall
    have hlt : B.copy.host.size < (v :: seen).length + fuel := by simp; omega
    have hlt' : B.view.host.size < (v :: seen).length + fuel' := by simp; omega
    -- How the search goes on past the node, and below it.
    have skip : ∀ s, s₀ ≤ s → B.Fits s (searchFrom t strict ignore fuel (v :: seen).length stack best)
        (B.view.searchFrom t' strict ignore' fuel' stack' best') B.SameMatch := fun s hs =>
      fits_searchFrom hstart fuel fuel' (v :: seen) (htarget.mono hs) (rel_mono hign hs) (stack_mono hst hs)
        (hb.mono hs) hsweep.skip (hall'.mono hs) hlt hlt'
    have descend : ∀ s (best : Best (Node μ)) (best' : Best ν), s₀ ≤ s → B.SameBest s best best' →
        B.Fits s (do
          let stack ← pushChildren n (depth + 1) (← Op.childCount n) stack
          searchFrom t strict ignore fuel (v :: seen).length stack best)
        (do
          let stack' ← B.view.pushChildren v (depth + 1) (← B.view.childCount v) stack'
          B.view.searchFrom t' strict ignore' fuel' stack' best') B.SameMatch := by
      intro s best best' hs hb
      refine (fits_childCount (hn.mono hs)).bind ?_
      rintro x count _ hx - rfl
      have hsx := le_trans hs hx
      refine (fits_pushChildren (depth + 1) count (hn.mono hsx) (stack_mono hst hsx)).bind ?_
      intro y st st' hy hst' hsame
      obtain ⟨cs, rfl, -, hcs⟩ := View.pushChildren_eq_ok hst'
      have hsy := le_trans hsx hy
      refine fits_searchFrom hstart fuel fuel' (v :: seen) (htarget.mono hsy) (rel_mono hign hsy) hsame
        (hb.mono (le_trans hx hy)) ?_ (hall'.mono hsy) hlt hlt'
      have hd := hsweep.descend hstart hcs
      simpa [Function.comp_def] using hd
    refine Fits.here fun s hs hi => ?_
    have hign' : ignore = some n ↔ ignore' = some v := by
      cases hign with
      | none => simp
      | some h => simpa using (h.mono hs).eq_iff hi.sound (hn.mono hs)
    refine Fits.boundWalk_bind (fun x hx => ?_) ?_
    · have := length_le_of_has hsweep.skip.nodup (hall'.mono (le_trans hs hx))
      simpa using this
    rw [View.searchFrom]
    by_cases hskip : ignore' = some v
    · rw [if_pos hskip, if_pos (hign'.2 hskip)]
      exact skip s hs
    rw [if_neg hskip, if_neg fun h => hskip (hign'.1 h)]
    refine (fits_isExternal (hn.mono hs)).sure_bind ?_
    rintro x _ hx - rfl
    refine Fits.ite (fun _ => descend x best best' (le_trans hs hx) (hb.mono (le_trans hs hx))) fun _ => ?_
    have hsx := le_trans hs hx
    refine (fits_isAway (hn.mono hsx) htarget.2.1).sure_bind ?_
    rintro y _ hy - rfl
    have hsy := le_trans hsx hy
    refine Fits.ite (fun _ => skip y hsy) fun _ => ?_
    refine (fits_consider (hn.mono hsy) (htarget.mono hsy) depth (hb.mono hsy)).bind ?_
    intro z b b' hz _ hbb
    rw [hbb.isSettled]
    refine Fits.ite (fun _ => Fits.pure fun _ _ _ => .ambiguous) fun _ => ?_
    exact descend z b b' (le_trans hsy hz) hbb

theorem fits_bestMatch {s₀ : Snapshot μ} {n : Node μ} {v : ν} (hn : B.Stands s₀ n v) {t : Target}
    {t' : View.Sought} (ht : SameTarget s₀ t t') (strict : Bool) {ignore : Option (Node μ)}
    {ignore' : Option ν} (hi : Option.Rel (B.Stands s₀) ignore ignore') :
    B.Fits s₀ (bestMatch n t strict ignore) (B.view.bestMatch v t' strict ignore') B.SameMatch := by
  refine Fits.reach_bind fun k hk => ?_
  refine fits_searchFrom hn.2 k B.view.reach [] ht hi (.cons ⟨hn, rfl⟩ .nil) ⟨.none, rfl⟩ Sweep.first
    (by simp [HasAll]) ?_ ?_
  · simpa using hk
  · simp [View.reach]

theorem fits_uniqueMatch {s₀ : Snapshot μ} {n : Node μ} {v : ν} (hn : B.Stands s₀ n v) {t : Target}
    {t' : View.Sought} (ht : SameTarget s₀ t t') {ignore : Option (Node μ)}
    {ignore' : Option ν} (hi : Option.Rel (B.Stands s₀) ignore ignore') :
    B.Fits s₀ (uniqueMatch n t ignore) (B.view.uniqueMatch v t' ignore')
      (fun s m m' => Option.Rel (B.Stands s) m m') :=
  (fits_bestMatch hn ht true hi).bind fun _ _ _ _ _ hm =>
    Fits.pure fun _ ht _ => rel_mono hm.node? ht

theorem fits_isAmbiguous {s₀ : Snapshot μ} {n : Node μ} {v : ν} (hn : B.Stands s₀ n v) (f : Fingerprint)
    {ignore : Option (Node μ)} {ignore' : Option ν} (hi : Option.Rel (B.Stands s₀) ignore ignore') :
    B.Fits s₀ (isAmbiguous n f ignore) (B.view.isAmbiguous v f ignore') (fun _ a b => a = b) := by
  refine (fits_targetOf f).sure_bind fun s t hs _ ht => ?_
  refine (fits_uniqueMatch (hn.mono hs) ht (rel_mono hi hs)).bind fun x m m' _ _ hm => ?_
  refine Fits.pure fun _ _ _ => ?_
  cases hm <;> rfl

end

end Waymark.Rebuild
