import Mathlib
import Waymark.Route.Shortcut

/-!
# Shortcuts on a line

A list of shortcuts leaves out stretches of a route. The stretches are in order, and between two of them
at least one hop is kept. So a hop that is kept after hops that are not is the end of a shortcut that
begins right after the last kept hop before it.
-/

namespace Waymark.Shortcut

/-! ## Runs -/

/-- Up to `i`, the run that began at `start` holds only indices in `P`. -/
def Open (P : Nat → Prop) (i : Nat) (start : Option Nat) : Prop :=
  ∀ a, start = some a → a < i ∧ ∀ k, a ≤ k → k < i → P k

theorem Open.extend {P : Nat → Prop} {i : Nat} {start : Option Nat} (h : Open P i start) (hi : P i) :
    Open P (i + 1) (some (start.getD i)) := by
  rintro _ ⟨⟩
  cases start with
  | none =>
    refine ⟨by simp, fun k hk hk' => ?_⟩
    obtain rfl : k = i := by simp at hk; omega
    exact hi
  | some a =>
    obtain ⟨hlt, hP⟩ := h a rfl
    refine ⟨by simp; omega, fun k hk hk' => ?_⟩
    by_cases hki : k < i
    · exact hP k hk hki
    · obtain rfl : k = i := by omega
      exact hi

/-- The runs lie between their bounds and hold only indices at which the flag is true. -/
theorem runs_within {P : Nat → Prop} : ∀ (flags : List Bool) (i : Nat) (start : Option Nat),
    (∀ k, flags[k]? = some true → P (i + k)) → Open P i start →
    ∀ r ∈ runs flags i start, start.getD i ≤ r.1 ∧ r.1 < r.2 ∧ r.2 ≤ i + flags.length ∧
      ∀ k, r.1 ≤ k → k < r.2 → P k
  | [], i, some a, _, hstart, r, hr => by
    obtain rfl := List.mem_singleton.1 hr
    obtain ⟨hlt, hP⟩ := hstart a rfl
    exact ⟨Nat.le_refl _, hlt, by simp, hP⟩
  | [], i, none, _, _, r, hr => by cases hr
  | flag :: flags, i, start, hflags, hstart, r, hr => by
    have hflags' : ∀ k, flags[k]? = some true → P (i + 1 + k) := by
      intro k hk
      have := hflags (k + 1) hk
      rwa [← Nat.add_assoc, Nat.add_right_comm] at this
    cases flag with
    | true =>
      have hr' : r ∈ runs flags (i + 1) (some (start.getD i)) := by
        cases start <;> exact hr
      obtain ⟨h1, h2, h3, h4⟩ := runs_within flags (i + 1) _ hflags' (hstart.extend (hflags 0 rfl)) r hr'
      exact ⟨h1, h2, by simp; omega, h4⟩
    | false =>
      have rest := runs_within flags (i + 1) none hflags' nofun r
      simp only [Option.getD_none] at rest
      cases start with
      | none =>
        obtain ⟨h1, h2, h3, h4⟩ := rest hr
        exact ⟨Nat.le_of_succ_le h1, h2, by simp; omega, h4⟩
      | some a =>
        obtain ⟨hlt, hP⟩ := hstart a rfl
        rcases List.mem_cons.1 hr with rfl | hr
        · exact ⟨Nat.le_refl _, hlt, by simp, hP⟩
        · obtain ⟨h1, h2, h3, h4⟩ := rest hr
          exact ⟨by simp; omega, h2, by simp; omega, h4⟩

theorem runs_apart : ∀ (flags : List Bool) (i : Nat) (start : Option Nat),
    (runs flags i start).Pairwise fun r q => r.2 ≤ q.1
  | [], _, some _ => List.pairwise_singleton _ _
  | [], _, none => .nil
  | true :: flags, i, some a => runs_apart flags (i + 1) (some a)
  | true :: flags, i, none => runs_apart flags (i + 1) (some i)
  | false :: flags, i, none => runs_apart flags (i + 1) none
  | false :: flags, i, some a => by
    refine List.pairwise_cons.2 ⟨fun q hq => ?_, runs_apart flags (i + 1) none⟩
    have h := runs_within (P := fun _ => True) flags (i + 1) none (fun _ _ => trivial) nofun q hq
    exact Nat.le_of_succ_le h.1

/-- If the flags up to `m` are true, the run that is open goes past them. -/
theorem runs_leading {m : Nat} : ∀ (flags : List Bool) (i a : Nat), (∀ k, k < m → flags[k]? = some true) →
    ∀ r ∈ runs flags i (some a), r.1 = a ∧ i + m ≤ r.2 ∨ i + m ≤ r.1
  | [], i, a, hm, r, hr => by
    obtain rfl := List.mem_singleton.1 hr
    have : m = 0 := Nat.eq_zero_of_not_pos fun h => by simpa using hm 0 h
    exact .inl ⟨rfl, by simp [this]⟩
  | true :: flags, i, a, hm, r, hr => by
    have ih := runs_leading (m := m - 1) flags (i + 1) a (fun k hk => hm (k + 1) (by omega)) r hr
    omega
  | false :: flags, i, a, hm, r, hr => by
    have hzero : m = 0 := Nat.eq_zero_of_not_pos fun h => by simpa using hm 0 h
    subst hzero
    rcases List.mem_cons.1 hr with rfl | hr
    · exact .inl ⟨rfl, Nat.le_refl _⟩
    · have h := runs_within (P := fun _ => True) flags (i + 1) none (fun _ _ => trivial) nofun r hr
      exact .inr (Nat.le_of_succ_le h.1)

/-- The first run goes past the flags up to `m` if these are true. -/
theorem runs_first {m : Nat} {flags : List Bool} (hm : ∀ k, k < m + 1 → flags[k]? = some true) :
    ∀ r ∈ runs flags 0 none, r.1 = 0 ∧ m < r.2 ∨ m < r.1 := by
  intro r hr
  cases flags with
  | nil => cases hm 0 (Nat.succ_pos m)
  | cons flag flags =>
    obtain rfl : flag = true := by simpa using hm 0 (Nat.succ_pos m)
    have h := runs_leading (m := m) flags 1 0 (fun k hk => hm (k + 1) (by omega)) r hr
    omega

/-! ## Lists of shortcuts -/

/-- Shortcuts with the property `P`, in order and not adjacent, that begin at `lo` or later and end before
`hi`. -/
structure Cuts (P : Shortcut → Prop) (lo hi : Nat) (cuts : List Shortcut) : Prop where
  isCut : ∀ c ∈ cuts, P c
  within : ∀ c ∈ cuts, lo ≤ c.first ∧ c.stop < hi
  apart : cuts.Pairwise fun c d => c.stop < d.first

variable {P : Shortcut → Prop}

theorem Cuts.nil {lo hi : Nat} : Cuts P lo hi [] := ⟨nofun, nofun, .nil⟩

theorem Cuts.single {c : Shortcut} (h : P c) : Cuts P c.first (c.stop + 1) [c] := by
  refine ⟨?_, ?_, List.pairwise_singleton _ _⟩
  · rintro _ (_ | ⟨_, ⟨⟩⟩)
    exact h
  · rintro _ (_ | ⟨_, ⟨⟩⟩)
    exact ⟨Nat.le_refl _, Nat.lt_succ_self _⟩

theorem Cuts.weaken {lo hi lo' hi' : Nat} {cuts : List Shortcut} (h : Cuts P lo hi cuts)
    (hlo : lo' ≤ lo) (hhi : hi ≤ hi') : Cuts P lo' hi' cuts := by
  refine ⟨h.isCut, fun c hc => ?_, h.apart⟩
  have := h.within c hc
  omega

theorem Cuts.imp {Q : Shortcut → Prop} {lo hi : Nat} {cuts : List Shortcut} (h : Cuts P lo hi cuts)
    (hPQ : ∀ c, P c → Q c) : Cuts Q lo hi cuts :=
  ⟨fun c hc => hPQ c (h.isCut c hc), h.within, h.apart⟩

theorem Cuts.append {lo mid hi : Nat} {cuts more : List Shortcut} (h : Cuts P lo mid cuts)
    (h' : Cuts P mid hi more) (hlo : lo ≤ mid) (hhi : mid ≤ hi) :
    Cuts P lo hi (cuts ++ more) := by
  refine ⟨fun c hc => ?_, fun c hc => ?_, List.pairwise_append.2 ⟨h.apart, h'.apart, fun c hc d hd => ?_⟩⟩
  · exact (List.mem_append.1 hc).elim (h.isCut c) (h'.isCut c)
  · rcases List.mem_append.1 hc with hc | hc
    · have := h.within c hc
      omega
    · have := h'.within c hc
      omega
  · exact Nat.lt_of_lt_of_le (h.within c hc).2 (h'.within d hd).1

/-- Shortcuts in one stretch after the other. -/
theorem Cuts.flatten {ρ : Type} {lo hi : ρ → Nat} {a b : Nat} : ∀ {rs : List ρ}
    {css : List (List Shortcut)}, List.Forall₂ (fun r cs => Cuts P (lo r) (hi r) cs) rs css →
    (∀ r ∈ rs, a ≤ lo r ∧ lo r ≤ hi r ∧ hi r ≤ b) → (rs.Pairwise fun r q => hi r ≤ lo q) →
    Cuts P a b css.flatten
  | _, _, .nil, _, _ => .nil
  | r :: rs, cs :: css, .cons h hs, hab, hp => by
    obtain ⟨hr, hp⟩ := List.pairwise_cons.1 hp
    obtain ⟨hlo, hle, hhi⟩ := hab r List.mem_cons_self
    have hrest : Cuts P (hi r) b css.flatten := by
      refine Cuts.flatten hs (fun q hq => ?_) hp
      obtain ⟨-, hle', hhi'⟩ := hab q (List.mem_cons_of_mem _ hq)
      exact ⟨hr q hq, hle', hhi'⟩
    exact (h.append hrest hle hhi).weaken hlo (Nat.le_refl _)

/-! ## Kept hops -/

theorem Cuts.eq_of_touch {lo hi : Nat} {cuts : List Shortcut} (h : Cuts P lo hi cuts)
    {c d : Shortcut} (hc : c ∈ cuts) (hd : d ∈ cuts) (hcd : c.first ≤ d.stop) (hdc : d.first ≤ c.stop) :
    c = d := by
  have hapart := List.pairwise_iff_getElem.1 h.apart
  obtain ⟨i, hi, rfl⟩ := List.getElem_of_mem hc
  obtain ⟨j, hj, rfl⟩ := List.getElem_of_mem hd
  rcases Nat.lt_trichotomy i j with hij | rfl | hji
  · have := hapart i j hi hj hij
    omega
  · rfl
  · have := hapart j i hj hi hji
    omega

theorem any_skips {cuts : List Shortcut} {k : Nat} :
    cuts.any (·.skips k) = true ↔ ∃ c ∈ cuts, c.first ≤ k ∧ k < c.stop := by
  simp [Shortcut.skips]

structure Anchored (cuts : List Shortcut) (anchor k : Nat) : Prop where
  le : anchor ≤ k
  skipped : ∀ j, anchor ≤ j → j < k → cuts.any (·.skips j) = true
  kept : ∀ j, anchor = j + 1 → ¬ cuts.any (·.skips j) = true

section
variable {cuts : List Shortcut} {anchor k : Nat}

theorem Anchored.zero : Anchored cuts 0 0 := ⟨Nat.le_refl _, fun _ _ h => (nomatch h), nofun⟩

theorem Anchored.skip (h : Anchored cuts anchor k) (hk : cuts.any (·.skips k) = true) :
    Anchored cuts anchor (k + 1) := by
  refine ⟨Nat.le_succ_of_le h.le, fun j hj hjk => ?_, h.kept⟩
  by_cases hlt : j < k
  · exact h.skipped j hj hlt
  · obtain rfl : j = k := by omega
    exact hk

theorem Anchored.keep (hk : ¬ cuts.any (·.skips k) = true) : Anchored cuts (k + 1) (k + 1) := by
  refine ⟨Nat.le_refl _, fun j hj hjk => ?_, fun j hj => ?_⟩
  · omega
  · obtain rfl : j = k := by omega
    exact hk

/-- Between a kept hop and the next one lies exactly one shortcut, or nothing. -/
theorem Anchored.cut {lo hi : Nat} (h : Anchored cuts anchor k)
    (hcuts : Cuts P lo hi cuts) (hk : ¬ cuts.any (·.skips k) = true) (hlt : anchor < k) :
    ⟨anchor, k⟩ ∈ cuts := by
  obtain ⟨c, hc, hfirst, hstop⟩ := any_skips.1 (h.skipped (k - 1) (by omega) (by omega))
  have hstop' : c.stop = k := by
    have hnot : ¬ (c.first ≤ k ∧ k < c.stop) := fun hck => hk (any_skips.2 ⟨c, hc, hck⟩)
    omega
  have hfirst' : c.first = anchor := by
    rcases Nat.lt_trichotomy c.first anchor with hlow | heq | hhigh
    · exact absurd (any_skips.2 ⟨c, hc, by omega, by omega⟩) (h.kept (anchor - 1) (by omega))
    · exact heq
    · obtain ⟨d, hd, hdfirst, hdstop⟩ := any_skips.1 (h.skipped (c.first - 1) (by omega) (by omega))
      obtain rfl := hcuts.eq_of_touch hc hd (by omega) (by omega)
      omega
  rw [← hfirst', ← hstop']
  exact hc

/-- Nothing is left out at the end, since shortcuts end before it. -/
theorem Anchored.eq_of_end {lo hi : Nat} (h : Anchored cuts anchor k) (hcuts : Cuts P lo hi cuts)
    (hk : hi ≤ k) : anchor = k := by
  by_contra hne
  have hle := h.le
  obtain ⟨c, hc, -, hstop⟩ := any_skips.1 (h.skipped (k - 1) (by omega) (by omega))
  have := (hcuts.within c hc).2
  omega

end

end Waymark.Shortcut

namespace Waymark

/-! ## Findable hops -/

theorem Hop.eq_structural_of_findable {α : Type} {h : Hop α} (hf : h.isFindable = true) :
    ∃ n index, h = .structural n index true := by
  cases h with
  | structural n index findable =>
    obtain rfl : findable = true := hf
    exact ⟨n, index, rfl⟩
  | derived n call => cases hf

namespace Shortcut

variable {α : Type} {hops : List (Hop α)} {kept stop : Nat} {long : List (Nat × Nat)}

theorem findable_of_runs
    (hlong : (runs (((hops.take stop).drop kept).map Hop.isFindable) kept none).filter
      (fun r => r.1 + 3 ≤ r.2) = long) {r : Nat × Nat} (hr : r ∈ long) :
    kept ≤ r.1 ∧ r.1 + 3 ≤ r.2 ∧ r.2 ≤ stop ∧
      ∀ k, r.1 ≤ k → k < r.2 → ∃ h, hops[k]? = some h ∧ h.isFindable = true := by
  generalize hflags : ((hops.take stop).drop kept).map Hop.isFindable = flags at hlong
  have hfindable : ∀ k, flags[k]? = some true → ∃ h, hops[kept + k]? = some h ∧ h.isFindable = true := by
    intro k hk
    rw [← hflags, List.getElem?_map, Option.map_eq_some_iff] at hk
    obtain ⟨h, hh, hf⟩ := hk
    rw [List.getElem?_drop, List.getElem?_take] at hh
    split at hh
    · exact ⟨h, hh, hf⟩
    · cases hh
  have hlen : flags.length = min stop hops.length - kept := by
    rw [← hflags, List.length_map, List.length_drop, List.length_take]
  rw [← hlong, List.mem_filter, decide_eq_true_eq] at hr
  obtain ⟨hlo, hlt, hhi, hall⟩ := runs_within
    (P := fun k => ∃ h, hops[k]? = some h ∧ h.isFindable = true) flags kept none hfindable nofun r hr.1
  simp only [Option.getD_none] at hlo
  exact ⟨hlo, hr.2, by omega, hall⟩

/-- Shortcuts along the long runs of findable hops. -/
theorem Cuts.along {P : Shortcut → Prop}
    (hlong : (runs (((hops.take stop).drop kept).map Hop.isFindable) kept none).filter
      (fun r => r.1 + 3 ≤ r.2) = long) {along : List (List Shortcut)}
    (h : List.Forall₂ (fun r cs => Cuts P (r.1 + 1) (r.2 - 1 + 1) cs) long along) :
    Cuts P (kept + 1) stop along.flatten := by
  have hapart : long.Pairwise fun r q => r.2 ≤ q.1 := by
    rw [← hlong]
    exact (runs_apart _ kept none).filter _
  refine Cuts.flatten h (fun r hr => ?_) (hapart.imp fun hr => by omega)
  have := findable_of_runs hlong hr
  omega

end Shortcut

end Waymark
