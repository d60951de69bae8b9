import Mathlib
import Waymark.Snapshot

/-!
# Reasoning about operations

An operation is judged by what it does to a snapshot. A snapshot only grows: nodes keep their slots
and their parents, and type names keep their numbers. `Meets` says that an operation, from any later snapshot with
the invariant on, keeps the invariant and ends as it should. It is proved along the operation.
-/

namespace Waymark

variable {ν : Type} {α β γ δ : Type}

/-! ## Growth -/

namespace Snapshot

def handle? (s : Snapshot ν) (i : Nat) : Option ν := s.slots[i]?.map Slot.host

def Knows (s : Snapshot ν) (n : Node ν) : Prop := s.handle? n.id = some n.host

/-- All that `s` has numbered has the same number in `t`, and the parents that it knows stay. -/
structure Grows (s t : Snapshot ν) : Prop where
  config : t.config = s.config
  root : t.root = s.root
  searchRoot : t.searchRoot = s.searchRoot
  handle? : ∀ i v, s.handle? i = some v → t.handle? i = some v
  name? : ∀ tag name, s.types.name? tag = some name → t.types.name? tag = some name
  parent : ∀ n p, (s.slot n).parent = .node p → (t.slot n).parent = .node p

instance : Preorder (Snapshot ν) where
  le := Grows
  le_refl s := ⟨rfl, rfl, rfl, fun _ _ h => h, fun _ _ h => h, fun _ _ h => h⟩
  le_trans s t u h₁ h₂ := ⟨h₂.config.trans h₁.config, h₂.root.trans h₁.root,
    h₂.searchRoot.trans h₁.searchRoot, fun i v h => h₂.handle? i v (h₁.handle? i v h),
    fun tag name h => h₂.name? tag name (h₁.name? tag name h),
    fun n p h => h₂.parent n p (h₁.parent n p h)⟩

theorem Knows.mono {s t : Snapshot ν} {n : Node ν} (h : s.Knows n) (hst : s ≤ t) : t.Knows n :=
  Grows.handle? hst _ _ h

theorem handle?_eq_none_iff {s : Snapshot ν} {i : Nat} : s.handle? i = none ↔ s.size ≤ i := by
  simp [handle?, size]

theorem size_mono {s t : Snapshot ν} (hst : s ≤ t) : s.size ≤ t.size := by
  by_contra hlt
  have hnone : t.handle? t.size = none := handle?_eq_none_iff.2 (Nat.le_refl _)
  cases hs : s.handle? t.size with
  | none => exact hlt (handle?_eq_none_iff.1 hs)
  | some v =>
    rw [Grows.handle? hst _ v hs] at hnone
    cases hnone

end Snapshot

/-! ## Running operations -/

namespace Op

theorem exec_get (host : Host ν) (s : Snapshot ν) : (get : Op ν _).exec host s = (.ok s, s) := rfl

theorem exec_modifyGet (f : Snapshot ν → α × Snapshot ν) (host : Host ν) (s : Snapshot ν) :
    (modifyGet f : Op ν α).exec host s = (.ok (f s).1, (f s).2) := rfl

theorem exec_eq_of_result {op : Op ν α} {host : Host ν} {s : Snapshot ν} {r : Except Fault α}
    (h : (op.exec host s).1 = r) : op.exec host s = (r, (op.exec host s).2) := by
  rw [← h]

theorem exec_bind (op : Op ν α) (f : α → Op ν β) (host : Host ν) (s : Snapshot ν) :
    (op >>= f).exec host s = match op.exec host s with
      | (.ok a, t) => (f a).exec host t
      | (.error e, t) => (.error e, t) := by
  unfold exec ExceptT.run StateT.run
  simp only [bind, ReaderT.bind, ExceptT.bind, ExceptT.mk, StateT.bind, ExceptT.bindCont]
  cases op host s with
  | mk r t => cases r <;> rfl

/-! ## Meeting a specification -/

def Ends (Q : Snapshot ν → α → Prop) (E : Fault → Prop) : Except Fault α × Snapshot ν → Prop
  | (.ok a, t) => Q t a
  | (.error e, _) => E e

/-- From every snapshot past `s₀` with the invariant `I`, the operation lets the snapshot grow, keeps
the invariant, and ends with `Q` or fails with `E`. -/
def Meets (host : Host ν) (I : Snapshot ν → Prop) (s₀ : Snapshot ν) (op : Op ν α)
    (Q : Snapshot ν → α → Prop) (E : Fault → Prop) : Prop :=
  ∀ s, s₀ ≤ s → I s →
    s ≤ (op.exec host s).2 ∧ I (op.exec host s).2 ∧ Ends Q E (op.exec host s)

section
variable {host : Host ν} {I : Snapshot ν → Prop} {s₀ s₁ : Snapshot ν} {op : Op ν α} {f : α → Op ν β}
variable {Q Q' : Snapshot ν → α → Prop} {R : Snapshot ν → β → Prop} {E E' : Fault → Prop}

theorem Meets.pure {a : α} (h : ∀ s, s₀ ≤ s → I s → Q s a) : Meets host I s₀ (pure a) Q E :=
  fun s hs hi => ⟨le_refl s, hi, h s hs hi⟩

theorem Meets.throw {e : Fault} (h : E e) : Meets host I s₀ (throw e : Op ν α) Q E :=
  fun s _ hi => ⟨le_refl s, hi, h⟩

theorem Meets.later (h : Meets host I s₀ op Q E) (hs : s₀ ≤ s₁) : Meets host I s₁ op Q E :=
  fun s hs₁ hi => h s (le_trans hs hs₁) hi

theorem Meets.mono (h : Meets host I s₀ op Q E) (hQ : ∀ s a, s₀ ≤ s → I s → Q s a → Q' s a)
    (hE : ∀ e, E e → E' e) : Meets host I s₀ op Q' E' := by
  intro s hs hi
  obtain ⟨hg, hi', he⟩ := h s hs hi
  refine ⟨hg, hi', ?_⟩
  revert he hg hi'
  generalize op.exec host s = r
  intro hg hi' he
  obtain ⟨r, t⟩ := r
  cases r with
  | ok a => exact hQ t a (le_trans hs hg) hi' he
  | error e => exact hE e he

theorem Meets.bind (h : Meets host I s₀ op Q E)
    (hf : ∀ s a, s₀ ≤ s → I s → Q s a → Meets host I s (f a) R E) :
    Meets host I s₀ (op >>= f) R E := by
  intro s hs hi
  obtain ⟨hg, hi', he⟩ := h s hs hi
  rw [exec_bind]
  revert he hg hi'
  generalize op.exec host s = r
  intro hg hi' he
  obtain ⟨r, t⟩ := r
  cases r with
  | ok a =>
    obtain ⟨hg', hi'', he'⟩ := hf t a (le_trans hs hg) hi' he t (le_refl t) hi'
    exact ⟨le_trans hg hg', hi'', he'⟩
  | error e => exact ⟨hg, hi', he⟩

theorem Meets.both (h : Meets host I s₀ op Q E) (h' : Meets host I s₀ op Q' E') :
    Meets host I s₀ op (fun s a => Q s a ∧ Q' s a) (fun e => E e ∧ E' e) := by
  intro s hs hi
  obtain ⟨hg, hi', he⟩ := h s hs hi
  obtain ⟨-, -, he'⟩ := h' s hs hi
  refine ⟨hg, hi', ?_⟩
  revert he he'
  generalize op.exec host s = r
  intro he he'
  obtain ⟨r, t⟩ := r
  cases r with
  | ok a => exact ⟨he, he'⟩
  | error e => exact ⟨he, he'⟩

/-- A result is that of a run from some snapshot with the invariant. -/
theorem Meets.traced (h : Meets host I s₀ op Q E) : Meets host I s₀ op
    (fun t a => Q t a ∧ ∃ s, s₀ ≤ s ∧ I s ∧ op.exec host s = (.ok a, t)) E := by
  intro s hs hi
  obtain ⟨hg, hi', he⟩ := h s hs hi
  refine ⟨hg, hi', ?_⟩
  cases hrun : op.exec host s with
  | mk r t =>
    rw [hrun] at he
    cases r with
    | ok a => exact ⟨he, s, hs, hi, hrun⟩
    | error e => exact he

theorem Meets.result {s t : Snapshot ν} {a : α} (h : Meets host I s₀ op Q E) (hs : s₀ ≤ s) (hi : I s)
    (hrun : op.exec host s = (.ok a, t)) : s ≤ t ∧ I t ∧ Q t a := by
  have hmeets := h s hs hi
  rw [hrun] at hmeets
  exact hmeets

theorem Meets.returns {s : Snapshot ν} (h : Meets host I s₀ op Q fun _ => False) (hs : s₀ ≤ s) (hi : I s) :
    ∃ a, (op.exec host s).1 = .ok a ∧ I (op.exec host s).2 ∧ Q (op.exec host s).2 a := by
  obtain ⟨-, hi', hends⟩ := h s hs hi
  generalize op.exec host s = run at hi' hends
  obtain ⟨r, t⟩ := run
  cases r with
  | ok a => exact ⟨a, rfl, hi', hends⟩
  | error e => exact hends.elim

theorem Meets.get_bind {f : Snapshot ν → Op ν β} (hf : ∀ s, s₀ ≤ s → I s → Meets host I s (f s) R E) :
    Meets host I s₀ (get >>= f) R E :=
  fun s hs hi => hf s hs hi s (le_refl s) hi

theorem Meets.slot_bind {n : Node ν} {f : Slot ν → Op ν β}
    (hf : ∀ s, s₀ ≤ s → I s → Meets host I s (f (s.slot n)) R E) :
    Meets host I s₀ (slot n >>= f) R E :=
  fun s hs hi => hf s hs hi s (le_refl s) hi

theorem Meets.read_bind {f : Host ν → Op ν β} (hf : Meets host I s₀ (f host) R E) :
    Meets host I s₀ (read >>= f) R E := hf

theorem Meets.typeName_bind {n : Node ν} {f : String → Op ν β}
    (hf : Meets host I s₀ (f (host.typeName n.host)) R E) :
    Meets host I s₀ (typeName n >>= f) R E := hf

theorem Meets.reach_bind {f : Nat → Op ν β}
    (hf : ∀ s, s₀ ≤ s → I s → Meets host I s (f (s.size + host.size + 1)) R E) :
    Meets host I s₀ (reach >>= f) R E :=
  fun s hs hi => hf s hs hi s (le_refl s) hi

theorem Meets.answer_bind {r : HostAnswer α} (hf : ∀ a, r = .ok a → Meets host I s₀ (f a) R E)
    (hE : ∀ m, r = .error m → E (.host m)) : Meets host I s₀ (answer r >>= f) R E := by
  cases r with
  | ok a => exact hf a rfl
  | error m => exact Meets.throw (hE m rfl)

end

/-! ## Notes and questions -/

/-- The invariant does not speak about what was noted. -/
def Silent (I : Snapshot ν → Prop) : Prop := ∀ s j, I s → I { s with journal := j }

theorem le_journal (s : Snapshot ν) (j : Journal ν) : s ≤ { s with journal := j } :=
  ⟨rfl, rfl, rfl, fun _ _ h => h, fun _ _ h => h, fun _ _ h => h⟩

section
variable {host : Host ν} {I : Snapshot ν → Prop} (hI : Silent I) {s₀ : Snapshot ν}
variable {Q : Snapshot ν → α → Prop} {E : Fault → Prop}
include hI

theorem Meets.note (e : Event) : Meets host I s₀ (note e) (fun _ _ => True) E :=
  fun s _ hi => ⟨le_journal s _, hI s _ hi, trivial⟩

theorem Meets.asked (q : Query ν) : Meets host I s₀ (asked q) (fun _ _ => True) E :=
  fun s _ hi => ⟨le_journal s _, hI s _ hi, trivial⟩

theorem Meets.note_bind {e : Event} {op : Op ν α} (h : Meets host I s₀ op Q E) :
    Meets host I s₀ (Op.note e >>= fun _ => op) Q E :=
  (Meets.note hI e).bind fun _ _ hs _ _ => h.later hs

theorem Meets.asked_bind {q : Query ν} {op : Op ν α} (h : Meets host I s₀ op Q E) :
    Meets host I s₀ (Op.asked q >>= fun _ => op) Q E :=
  (Meets.asked hI q).bind fun _ _ hs _ _ => h.later hs

theorem Meets.loopAt {n : Node ν} (h : E (.loop (host.typeName n.host))) :
    Meets host I s₀ (loopAt n) Q E :=
  Meets.typeName_bind (Meets.note_bind hI (Meets.throw h))

theorem Meets.boundWalk {n : Node ν} {visited : Nat}
    (h : ∀ s, s₀ ≤ s → I s → s.size < visited → E (.loop (host.typeName n.host))) :
    Meets host I s₀ (boundWalk visited n) (fun s _ => visited ≤ s.size) E := by
  intro s hs hi
  by_cases hv : s.size < visited
  · have hl := Meets.loopAt (Q := fun (s : Snapshot ν) (_ : Unit) => visited ≤ s.size)
      hI (h s hs hi hv) s (le_refl s) hi
    simpa only [Op.boundWalk, exec_bind, exec_get, hv, if_true] using hl
  · simp only [Op.boundWalk, exec_bind, exec_get, hv, if_false]
    exact ⟨le_refl s, hi, Nat.le_of_not_lt hv⟩

end

/-! ## Telling what a specification says -/

/-- The operation ends as `r` does: with the same fault, or with results that are related by `R`. -/
def Tells (host : Host ν) (I : Snapshot ν → Prop) (s₀ : Snapshot ν) (op : Op ν α) (r : Except Fault γ)
    (R : Snapshot ν → α → γ → Prop) : Prop :=
  Meets host I s₀ op (fun s a => ∃ b, r = .ok b ∧ R s a b) (fun e => r = .error e)

section
variable {host : Host ν} {I : Snapshot ν → Prop} {s₀ s₁ : Snapshot ν} {op : Op ν α} {f : α → Op ν β}
variable {r : Except Fault γ} {g : γ → Except Fault δ}
variable {R R' : Snapshot ν → α → γ → Prop} {S : Snapshot ν → β → δ → Prop}

theorem Tells.pure {a : α} {b : γ} (h : ∀ s, s₀ ≤ s → I s → R s a b) :
    Tells host I s₀ (pure a) (pure b) R :=
  Meets.pure fun s hs hi => ⟨b, rfl, h s hs hi⟩

theorem Tells.throw {e : Fault} : Tells host I s₀ (throw e : Op ν α) (throw e : Except Fault γ) R :=
  Meets.throw rfl

theorem Tells.later (h : Tells host I s₀ op r R) (hs : s₀ ≤ s₁) : Tells host I s₁ op r R :=
  Meets.later h hs

theorem Tells.mono (h : Tells host I s₀ op r R)
    (hR : ∀ s a b, s₀ ≤ s → I s → r = .ok b → R s a b → R' s a b) : Tells host I s₀ op r R' := by
  refine Meets.mono h ?_ fun _ h => h
  rintro s a hs hi ⟨b, hb, hab⟩
  exact ⟨b, hb, hR s a b hs hi hb hab⟩

theorem Tells.bind (h : Tells host I s₀ op r R)
    (hf : ∀ s a b, s₀ ≤ s → I s → r = .ok b → R s a b → Tells host I s (f a) (g b) S) :
    Tells host I s₀ (op >>= f) (r >>= g) S := by
  cases r with
  | ok b =>
    refine Meets.bind (Meets.mono h (fun _ _ _ _ h => h) nofun) ?_
    rintro s a hs hi ⟨b', hb, hab⟩
    cases hb
    exact hf s a b hs hi rfl hab
  | error e =>
    refine Meets.bind (Q := fun _ _ => False) (Meets.mono h ?_ ?_) ?_
    · rintro s a _ _ ⟨b, hb, _⟩
      cases hb
    · intro e' he
      cases he
      rfl
    · intro s a _ _ h
      exact h.elim

theorem Tells.sure {b : γ} {E : Fault → Prop} (h : Tells host I s₀ op (.ok b) R) :
    Meets host I s₀ op (fun s a => R s a b) E := by
  refine Meets.mono h ?_ nofun
  rintro s a _ _ ⟨_, ⟨⟩, hab⟩
  exact hab

theorem Tells.of_map {r : Except Fault γ} {f : γ → δ} {R : Snapshot ν → α → δ → Prop}
    (h : Tells host I s₀ op (r.map f) R) : Tells host I s₀ op r fun s a b => R s a (f b) := by
  cases r with
  | ok b =>
    refine Meets.mono h ?_ nofun
    rintro s a _ _ ⟨_, ⟨⟩, hab⟩
    exact ⟨b, rfl, hab⟩
  | error e =>
    refine Meets.mono h ?_ ?_
    · rintro s a _ _ ⟨_, ⟨⟩, _⟩
    · rintro e' ⟨⟩
      rfl

/-- A part that brings nothing to the result. -/
theorem Tells.skip {op : Op ν Unit} {f : Unit → Op ν β} {r : Except Fault δ}
    (h : Meets host I s₀ op (fun _ _ => True) (fun e => r = .error e))
    (hf : Tells host I s₀ (f ()) r S) : Tells host I s₀ (op >>= f) r S :=
  Meets.bind h fun _ _ hs _ _ => hf.later hs

theorem Tells.mapM {f : α → Op ν β} {g : γ → Except Fault δ} {S : Snapshot ν → α → γ → Prop}
    {R : Snapshot ν → β → δ → Prop} (hS : ∀ s t a b, s ≤ t → S s a b → S t a b)
    (hR : ∀ s t a b, s ≤ t → R s a b → R t a b)
    (hf : ∀ s a b, S s a b → Tells host I s (f a) (g b) R) :
    ∀ {as : List α} {bs : List γ} {s₀ : Snapshot ν}, List.Forall₂ (S s₀) as bs →
      Tells host I s₀ (as.mapM f) (bs.mapM g) (fun s xs ys => List.Forall₂ (R s) xs ys)
  | [], _, _, .nil => by
    rw [List.mapM_nil, List.mapM_nil]
    exact Tells.pure fun _ _ _ => .nil
  | a :: as, b :: bs, s₀, .cons hab habs => by
    rw [List.mapM_cons, List.mapM_cons]
    refine (hf s₀ a b hab).bind fun s x y hs _ _ hxy => ?_
    refine (Tells.mapM hS hR hf (habs.imp fun a b h => hS _ _ a b hs h)).bind ?_
    intro t xs ys ht _ _ hxys
    exact Tells.pure fun u hu _ =>
      .cons (hR _ _ _ _ (le_trans ht hu) hxy) (hxys.imp fun a b h => hR _ _ a b hu h)

end

end Op

end Waymark
