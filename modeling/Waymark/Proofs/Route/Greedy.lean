import Waymark.Proofs.Route.Cuts

/-!
# As few hops as searches allow

Shortcuts are chosen one after the other, each time as far as a search leads. What comes out cannot be
shortened in the same way again. Here this is said about indices: `Found i j` stands for a search from
where hop `i` begins that finds the end of hop `j`.
-/

namespace Waymark.Shortcut

/-! ## Longest runs -/

structure LongestRun (P : Nat → Prop) (a b lo hi : Nat) : Prop where
  start : a ≤ lo
  lt : lo < hi
  stop : hi ≤ b
  all : ∀ k, lo ≤ k → k < hi → P k
  before : ∀ k, a ≤ k → k + 1 = lo → ¬ P k
  after : hi < b → ¬ P hi

section
variable {P : Nat → Prop} {a b lo hi i : Nat}

/-- A run that meets the indices before `i`, which are all in `P`, consists of them. -/
theorem LongestRun.eq_of_open (h : LongestRun P a b lo hi) (hopen : ∀ k, a ≤ k → k < i → P k)
    (hib : i ≤ b) (hend : i < b → ¬ P i) (hlo : lo ≤ i) : lo = a ∧ hi = i := by
  have hlt := h.lt
  have hstart := h.start
  have hstop := h.stop
  have hlow : lo = a := by
    by_contra hne
    exact h.before (lo - 1) (by omega) (by omega) (hopen (lo - 1) (by omega) (by omega))
  refine ⟨hlow, ?_⟩
  rcases Nat.lt_trichotomy hi i with hless | heq | hmore
  · exact absurd (hopen hi (by omega) hless) (h.after (by omega))
  · exact heq
  · exact absurd (h.all i hlo hmore) (hend (by omega))

theorem LongestRun.past (h : LongestRun P a b lo hi) (hlo : i < lo) (ha : a ≤ i) :
    LongestRun P (i + 1) b lo hi where
  start := hlo
  lt := h.lt
  stop := h.stop
  all := h.all
  before k hk := h.before k (by omega)
  after := h.after

/-- Each longest run of true flags is one of the runs. -/
theorem mem_runs : ∀ (flags : List Bool) (i : Nat) (start : Option Nat),
    (∀ k, flags[k]? = some true ↔ k < flags.length ∧ P (i + k)) → Open P i start →
    LongestRun P (start.getD i) (i + flags.length) lo hi → (lo, hi) ∈ runs flags i start
  | [], i, none, _, _, h => by
    have hstart : i ≤ lo := h.start
    have hstop : hi ≤ i := h.stop
    have hlt := h.lt
    omega
  | [], i, some a, _, hopen, h => by
    have hlo : lo ≤ i := Nat.le_trans (Nat.le_of_lt h.lt) h.stop
    obtain ⟨rfl, rfl⟩ := h.eq_of_open (hopen a rfl).2 (Nat.le_refl _) (by simp) hlo
    exact List.mem_singleton_self _
  | flag :: flags, i, start, hflags, hopen, h => by
    have hflags' : ∀ k, flags[k]? = some true ↔ k < flags.length ∧ P (i + 1 + k) := by
      intro k
      have hk := hflags (k + 1)
      rw [List.getElem?_cons_succ, List.length_cons, Nat.add_lt_add_iff_right] at hk
      rwa [Nat.add_right_comm, Nat.add_assoc]
    rw [List.length_cons, ← Nat.add_assoc, Nat.add_right_comm] at h
    cases flag with
    | true =>
      have hP : P i := ((hflags 0).1 rfl).2
      have hmem : (lo, hi) ∈ runs flags (i + 1) (some (start.getD i)) :=
        mem_runs flags (i + 1) _ hflags' (hopen.extend hP) h
      cases start <;> exact hmem
    | false =>
      have hP : ¬ P i := fun hP => nomatch (hflags 0).2 ⟨by simp, hP⟩
      have hle : start.getD i ≤ i := by
        cases start with
        | none => exact Nat.le_refl _
        | some a => exact Nat.le_of_lt (hopen a rfl).1
      have later : i < lo → (lo, hi) ∈ runs flags (i + 1) none := fun hlo =>
        mem_runs flags (i + 1) none hflags' nofun (h.past hlo hle)
      cases start with
      | none =>
        refine later (Nat.lt_of_le_of_ne h.start fun heq => hP ?_)
        exact h.all i (Nat.le_of_eq heq.symm) (heq ▸ h.lt)
      | some a =>
        rcases Nat.lt_or_ge i lo with hlo | hlo
        · exact List.mem_cons_of_mem _ (later hlo)
        · obtain ⟨rfl, rfl⟩ := h.eq_of_open (hopen a rfl).2 (by omega) (fun _ => hP) hlo
          exact List.mem_cons_self

end

/-! ## Kept hops -/

def Kept (cuts : List Shortcut) (k : Nat) : Prop := ¬ cuts.any (·.skips k) = true

def Within (lo hi : Nat) (cuts : List Shortcut) : Prop := ∀ c ∈ cuts, lo ≤ c.first ∧ c.stop < hi

structure Successive (K : Nat → Prop) (p q : Nat) : Prop where
  left : K p
  right : K q
  lt : p < q
  between : ∀ k, p < k → k < q → ¬ K k

section
variable {K K' : Nat → Prop} {cuts more : List Shortcut} {lo hi k p q : Nat}

theorem kept_append : Kept (cuts ++ more) k ↔ Kept cuts k ∧ Kept more k := by
  simp only [Kept, List.any_append, Bool.or_eq_true, not_or]

theorem Within.kept_before (h : Within lo hi cuts) (hk : k < lo) : Kept cuts k := by
  intro hskip
  obtain ⟨c, hc, hfirst, -⟩ := any_skips.1 hskip
  have := h c hc
  omega

theorem Within.kept_after (h : Within lo hi cuts) (hk : hi ≤ k + 1) : Kept cuts k := by
  intro hskip
  obtain ⟨c, hc, -, hstop⟩ := any_skips.1 hskip
  have := h c hc
  omega

theorem Within.weaken {lo' hi' : Nat} (h : Within lo hi cuts) (hlo : lo' ≤ lo) (hhi : hi ≤ hi') :
    Within lo' hi' cuts := by
  intro c hc
  have := h c hc
  omega

theorem Successive.congr (h : Successive K p q) (hK : ∀ k, p ≤ k → k ≤ q → (K k ↔ K' k)) :
    Successive K' p q where
  left := (hK p (Nat.le_refl p) (Nat.le_of_lt h.lt)).1 h.left
  right := (hK q (Nat.le_of_lt h.lt) (Nat.le_refl q)).1 h.right
  lt := h.lt
  between k hpk hkq hk := h.between k hpk hkq ((hK k (Nat.le_of_lt hpk) (Nat.le_of_lt hkq)).2 hk)

theorem within_flatten {ρ : Type} {lo hi : ρ → Nat} {a b : Nat} {rs : List ρ} {css : List (List Shortcut)}
    (h : List.Forall₂ (fun r cs => Within (lo r) (hi r) cs) rs css) (hab : ∀ r ∈ rs, a ≤ lo r ∧ hi r ≤ b) :
    Within a b css.flatten := by
  induction h with
  | nil => exact nofun
  | cons h _ ih =>
    obtain ⟨hr, hrs⟩ := List.forall_mem_cons.1 hab
    intro c hc
    rw [List.flatten_cons, List.mem_append] at hc
    rcases hc with hc | hc
    · exact h.weaken hr.1 hr.2 c hc
    · exact ih hrs c hc

/-- Shortcuts in one stretch leave the hops of the others as they are. -/
theorem kept_flatten {ρ : Type} {lo hi : ρ → Nat} {b : Nat} {R : ρ → List Shortcut → Prop} :
    ∀ {rs : List ρ} {css : List (List Shortcut)},
    List.Forall₂ (fun r cs => Within (lo r) (hi r) cs ∧ R r cs) rs css → (∀ r ∈ rs, hi r ≤ b) →
    (rs.Pairwise fun r q => hi r ≤ lo q) → ∀ r ∈ rs, ∃ cs, R r cs ∧
      ∀ k, lo r ≤ k → k < hi r → (Kept css.flatten k ↔ Kept cs k)
  | _, _, .nil, _, _, r, hr => by cases hr
  | q :: rs, cs :: css, .cons h hs, hb, hp, r, hr => by
    obtain ⟨hq, hp⟩ := List.pairwise_cons.1 hp
    simp only [List.flatten_cons, kept_append]
    rcases List.mem_cons.1 hr with rfl | hr
    · have hrest : Within (hi r) b css.flatten :=
        within_flatten (hs.imp fun _ _ h => h.1) fun x hx => ⟨hq x hx, hb x (List.mem_cons_of_mem _ hx)⟩
      exact ⟨cs, h.2, fun k _ hk => and_iff_left (hrest.kept_before hk)⟩
    · obtain ⟨cs', hR, hkept⟩ := kept_flatten hs (fun x hx => hb x (List.mem_cons_of_mem _ hx)) hp r hr
      refine ⟨cs', hR, fun k hlo hhi => ?_⟩
      rw [← hkept k hlo hhi]
      have := hq r hr
      exact and_iff_right (h.1.kept_after (by omega))

end

/-! ## Along a run -/

/-- The way from hop `current` to hop `last` goes each time so far that no hop beyond is found. -/
inductive Strides (Found : Nat → Nat → Prop) (last : Nat) : Nat → List Shortcut → Prop where
  | done {current : Nat} (hle : last ≤ current) : Strides Found last current []
  | next {current : Nat} {cuts : List Shortcut} (hlt : current < last)
    (hfar : ∀ t, current + 1 < t → t ≤ last → ¬ Found (current + 1) t)
    (hrest : Strides Found last (current + 1) cuts) : Strides Found last current cuts
  | jump {current next : Nat} {cuts : List Shortcut} (hlt : current + 1 < next) (hle : next ≤ last)
    (hfar : ∀ t, next < t → t ≤ last → ¬ Found (current + 1) t)
    (hrest : Strides Found last next cuts) : Strides Found last current (⟨current + 1, next⟩ :: cuts)

section
variable {Found : Nat → Nat → Prop} {last current : Nat} {cuts : List Shortcut}

theorem Strides.within (h : Strides Found last current cuts) : Within (current + 1) (last + 1) cuts := by
  induction h with
  | done => exact nofun
  | next _ _ _ ih => exact ih.weaken (Nat.le_succ _) (Nat.le_refl _)
  | jump hlt hle _ _ ih =>
    intro c hc
    rcases List.mem_cons.1 hc with rfl | hc
    · exact ⟨Nat.le_refl _, Nat.lt_succ_of_le hle⟩
    · have := ih c hc
      omega

theorem Strides.not_found (h : Strides Found last current cuts) {p q r : Nat} (hp : current ≤ p)
    (hr : r ≤ last) (hpq : Successive (Kept cuts) p q) (hqr : Successive (Kept cuts) q r) :
    ¬ Found (p + 1) r := by
  have hlt := hpq.lt
  have hlt' := hqr.lt
  induction h with
  | done hle => omega
  | @next current cuts _ hfar hrest ih =>
    rcases Nat.eq_or_lt_of_le hp with rfl | hp
    · exact hfar r (by omega) hr
    · exact ih hp hpq hqr
  | @jump current next cuts hnext _ hfar hrest ih =>
    have hiff : ∀ k, next ≤ k → (Kept (⟨current + 1, next⟩ :: cuts) k ↔ Kept cuts k) := by
      intro k hk
      simp [Kept, Shortcut.skips, Nat.not_lt.2 hk]
    have hskipped : ∀ k, current < k → k < next → ¬ Kept (⟨current + 1, next⟩ :: cuts) k := by
      intro k hk hk' hkept
      exact hkept (any_skips.2 ⟨_, List.mem_cons_self, hk, hk'⟩)
    rcases Nat.eq_or_lt_of_le hp with rfl | hp
    · refine hfar r (Nat.lt_of_le_of_lt ?_ hlt') hr
      by_contra hq
      exact hskipped q hlt (by omega) hpq.right
    · have hp' : next ≤ p := by
        by_contra hlow
        exact hskipped p hp (by omega) hpq.left
      exact ih hp' (hpq.congr fun k hk _ => hiff k (by omega)) (hqr.congr fun k hk _ => hiff k (by omega))

end

/-! ## In a segment -/

/-- The shortcut from `lo`, if there is one, leads to the last findable hop before `hi` that is found. -/
structure Deepest (Found : Nat → Nat → Prop) (P : Nat → Prop) (lo hi : Nat) (top : Option Shortcut) :
    Prop where
  isCut : ∀ c ∈ top, c.first = lo ∧ lo < c.stop ∧ c.stop < hi ∧ P c.stop ∧ Found lo c.stop
  beyond : ∀ j, (top.map Shortcut.stop).getD lo < j → j < hi → P j → ¬ Found lo j

section
variable {Found : Nat → Nat → Prop} {P : Nat → Prop} {lo hi : Nat} {top : Option Shortcut}

theorem Deepest.nothing : Deepest Found P lo (lo + 1) none where
  isCut := nofun
  beyond j hj hj' := by
    simp only [Option.map_none, Option.getD_none] at hj
    omega

theorem Deepest.last (hP : P hi) (hfound : Found lo hi) (hlt : lo < hi) :
    Deepest Found P lo (hi + 1) (some ⟨lo, hi⟩) where
  isCut c hc := by
    cases hc
    exact ⟨rfl, hlt, Nat.lt_succ_self _, hP, hfound⟩
  beyond j hj hj' := by
    simp only [Option.map_some, Option.getD_some] at hj
    omega

theorem Deepest.widen (h : Deepest Found P lo hi top) (hnot : ¬ (P hi ∧ Found lo hi)) :
    Deepest Found P lo (hi + 1) top where
  isCut c hc := by
    obtain ⟨hfirst, hlt, hstop, hfound⟩ := h.isCut c hc
    exact ⟨hfirst, hlt, Nat.lt_succ_of_lt hstop, hfound⟩
  beyond j hj hj' hP hfound := by
    rcases Nat.lt_or_ge j hi with hlt | hge
    · exact h.beyond j hj hlt hP hfound
    · obtain rfl : j = hi := by omega
      exact hnot ⟨hP, hfound⟩

variable {first : Nat} (h : Deepest Found P lo hi top) (hfirst : (top.map Shortcut.stop).getD lo = first)
include h hfirst

/-- Where the shortcut leads to. -/
theorem Deepest.leads (hlt : lo < hi) : lo ≤ first ∧ first < hi ∧ (first = lo ∨ P first ∧ Found lo first) := by
  subst hfirst
  cases top with
  | none => exact ⟨Nat.le_refl lo, hlt, .inl rfl⟩
  | some c =>
    obtain ⟨-, hlow, hhigh, hfound⟩ := h.isCut c rfl
    exact ⟨Nat.le_of_lt hlow, hhigh, .inr hfound⟩

theorem Deepest.kept_iff (k : Nat) : Kept top.toList k ↔ k < lo ∨ first ≤ k := by
  subst hfirst
  cases top with
  | none => simp [Kept, Nat.lt_or_ge]
  | some c =>
    obtain ⟨rfl, -⟩ := h.isCut c rfl
    simp [Kept, skips, Decidable.imp_iff_not_or]

end

/-- Of the hops from `lo` on and before `hi`, those in `K` are kept, `first` before the others. No farther
one is found from where the hops begin, and in a run of hops in `P` none is found from the last but one
before it. -/
structure Irreducible (Found : Nat → Nat → Prop) (P K : Nat → Prop) (lo hi first : Nat) : Prop where
  lower : lo ≤ first
  upper : first < hi
  kept : K first
  skipped : ∀ k, lo ≤ k → k < first → ¬ K k
  found : first = lo ∨ P first ∧ Found lo first
  deepest : ∀ j, first < j → j < hi → P j → ¬ Found lo j
  along : ∀ a b p q r, LongestRun P first hi a b → a ≤ p → r < b → Successive K p q → Successive K q r →
    ¬ Found (p + 1) r

theorem Irreducible.congr {Found : Nat → Nat → Prop} {P K K' : Nat → Prop} {lo hi first : Nat}
    (h : Irreducible Found P K lo hi first) (hK : ∀ k, lo ≤ k → k < hi → (K k ↔ K' k)) :
    Irreducible Found P K' lo hi first where
  lower := h.lower
  upper := h.upper
  kept := (hK first h.lower h.upper).1 h.kept
  skipped k hlo hk hkept := by
    have hupper := h.upper
    exact h.skipped k hlo hk ((hK k hlo (by omega)).2 hkept)
  found := h.found
  deepest := h.deepest
  along a b p q r hrun hp hr hpq hqr := by
    have hlower := h.lower
    have hstart := hrun.start
    have hstop := hrun.stop
    have hlt := hpq.lt
    have hlt' := hqr.lt
    exact h.along a b p q r hrun hp hr (hpq.congr fun k hk hk' => (hK k (by omega) (by omega)).symm)
      (hqr.congr fun k hk hk' => (hK k (by omega) (by omega)).symm)

end Waymark.Shortcut

namespace Waymark

open Shortcut

variable {α : Type} {hops : List (Hop α)}

def FindableAt (hops : List (Hop α)) (k : Nat) : Prop := ∃ h, hops[k]? = some h ∧ h.isFindable = true

def StructuralAt (hops : List (Hop α)) (k : Nat) : Prop := ∃ h, hops[k]? = some h ∧ h.isStructural = true

theorem mem_runs_structural {lo hi : Nat} (h : LongestRun (StructuralAt hops) 0 hops.length lo hi) :
    (lo, hi) ∈ runs (hops.map Hop.isStructural) 0 none := by
  refine mem_runs (P := StructuralAt hops) _ 0 none (fun k => ?_) nofun (by simpa using h)
  simp only [List.getElem?_map, Option.map_eq_some_iff, List.length_map, Nat.zero_add, StructuralAt]
  refine (and_iff_right_of_imp ?_).symm
  rintro ⟨h, hk, -⟩
  exact (List.getElem?_eq_some_iff.1 hk).1

theorem mem_runs_findable {first stop lo hi : Nat} (hle : first ≤ stop) (hstop : stop ≤ hops.length)
    (h : LongestRun (FindableAt hops) first stop lo hi) :
    (lo, hi) ∈ runs (((hops.take stop).drop first).map Hop.isFindable) first none := by
  have hlen : (((hops.take stop).drop first).map Hop.isFindable).length = stop - first := by
    simp only [List.length_map, List.length_drop, List.length_take]
    omega
  refine mem_runs (P := FindableAt hops) _ first none (fun k => ?_) nofun ?_
  · rw [hlen]
    simp only [List.getElem?_map, Option.map_eq_some_iff, FindableAt, List.getElem?_drop,
      List.getElem?_take]
    by_cases hk : first + k < stop
    · simp [hk, Nat.lt_sub_iff_add_lt']
    · simp [hk, Nat.lt_sub_iff_add_lt']
  · rw [hlen, Nat.add_sub_cancel' hle]
    exact h

/-- The shortcut from the start and those along the long runs after it. -/
theorem Shortcut.Deepest.irreducible {Found : Nat → Nat → Prop} {lo hi first : Nat} {top : Option Shortcut}
    {long : List (Nat × Nat)} {along : List (List Shortcut)}
    (htop : Deepest Found (FindableAt hops) lo hi top) (hlt : lo < hi) (hhi : hi ≤ hops.length)
    (hfirst : (top.map Shortcut.stop).getD lo = first)
    (hlong : (runs (((hops.take hi).drop first).map Hop.isFindable) first none).filter
      (fun r => r.1 + 3 ≤ r.2) = long)
    (h : List.Forall₂ (fun r cs => Strides Found (r.2 - 1) r.1 cs) long along) :
    Within lo hi (top.toList ++ along.flatten) ∧
      Irreducible Found (FindableAt hops) (Kept (top.toList ++ along.flatten)) lo hi first := by
  obtain ⟨hlower, hupper, hfound⟩ := htop.leads hfirst hlt
  have hiff := htop.kept_iff hfirst
  have hstrides : List.Forall₂ (fun r cs => Within (r.1 + 1) r.2 cs ∧ Strides Found (r.2 - 1) r.1 cs)
      long along := by
    refine ((List.forall₂_and_left _ _).2 ⟨fun r hr => findable_of_runs hlong hr, h⟩).imp ?_
    intro r cs ⟨⟨_, hlen, _⟩, hcs⟩
    exact ⟨hcs.within.weaken (Nat.le_refl _) (by omega), hcs⟩
  have halong : Within (first + 1) hi along.flatten := by
    refine within_flatten (hstrides.imp fun _ _ h => h.1) fun r hr => ?_
    obtain ⟨hlow, -, hhigh, -⟩ := findable_of_runs hlong hr
    exact ⟨Nat.succ_le_succ hlow, hhigh⟩
  refine ⟨?_, hlower, hupper, ?_, fun k hk hk' hkept => ?_, hfound, fun j hj => ?_, ?_⟩
  · intro c hc
    rcases List.mem_append.1 hc with hc | hc
    · obtain ⟨hc, -, hstop, -⟩ := htop.isCut c (Option.mem_toList.1 hc)
      exact ⟨Nat.le_of_eq hc.symm, hstop⟩
    · exact halong.weaken (by omega) (Nat.le_refl _) c hc
  · exact kept_append.2 ⟨(hiff first).2 (.inr (Nat.le_refl _)), halong.kept_before (Nat.lt_succ_self _)⟩
  · have := (hiff k).1 (kept_append.1 hkept).1
    omega
  · exact htop.beyond j (hfirst ▸ hj)
  · intro a b p q r hrun hp hr hpq hqr
    have hlt := hpq.lt
    have hlt' := hqr.lt
    have hmem : (a, b) ∈ long := by
      rw [← hlong, List.mem_filter]
      exact ⟨mem_runs_findable (Nat.le_of_lt hupper) hhi hrun, by simp; omega⟩
    have hapart : long.Pairwise fun r q => r.2 ≤ q.1 := by
      rw [← hlong]
      exact (runs_apart _ first none).filter _
    obtain ⟨cs, hcs, hkept⟩ := kept_flatten (b := hi)
      (hstrides.imp fun _ _ h => ⟨h.1.weaken (Nat.le_succ _) (Nat.le_refl _), h.2⟩)
      (fun r hr => (findable_of_runs hlong hr).2.2.1) hapart (a, b) hmem
    -- Within the run, the shortcuts along it decide alone which hops are kept.
    have hrun_iff : ∀ k, a ≤ k → k < b → (Kept (top.toList ++ along.flatten) k ↔ Kept cs k) := by
      intro k hk hk'
      have hstart := hrun.start
      rw [kept_append, hkept k hk hk']
      exact and_iff_right ((hiff k).2 (.inr (by omega)))
    exact hcs.not_found hp (by simp only; omega)
      (hpq.congr fun k hk hk' => hrun_iff k (by omega) (by omega))
      (hqr.congr fun k hk hk' => hrun_iff k (by omega) (by omega))

end Waymark
