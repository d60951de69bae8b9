import Waymark.Proofs.Route.Cuts
import Waymark.Proofs.View.Nearest

/-!
# Shortcuts on a route

What is left out of a route can be found again: every shortcut ends at a findable hop that a search from
where the shortcut begins singles out.
-/

namespace Waymark

variable {ν : Type}

namespace View

variable [DecidableEq ν] (w : View ν)

/-! ## Sound shortcuts -/

structure IsCut (hops : List (Hop ν)) (c : Shortcut) : Prop where
  lt : c.first < c.stop
  found : ∃ v index t, hops[c.stop]? = some (.structural v index true) ∧
    w.soughtAt v (c.stop + 1 - c.first) = .ok t ∧ w.Singles (w.startOf hops c.first) t v

variable {w} {hops : List (Hop ν)}

/-! ## From the start of a run -/

theorem isFoundFrom_eq_ok {a v : ν} {depth : Nat} (h : w.isFoundFrom a v depth = .ok true) :
    ∃ t, w.soughtAt v depth = .ok t ∧ w.Singles a t v := by
  simp only [isFoundFrom, bind_eq_ok, pure_eq_ok, decide_eq_true_eq] at h
  obtain ⟨t, ht, u, hu, rfl⟩ := h
  exact ⟨t, ht, singles_of_unique hu⟩

theorem isCut_of_found {first stop : Nat} {h : Hop ν} (hlt : first < stop) (hh : hops[stop]? = some h)
    (hf : h.isFindable = true)
    (hfound : w.isFoundFrom (w.startOf hops first) h.node (stop + 1 - first) = .ok true) :
    w.IsCut hops ⟨first, stop⟩ := by
  obtain ⟨v, index, rfl⟩ := Hop.eq_structural_of_findable hf
  obtain ⟨t, ht, hs⟩ := isFoundFrom_eq_ok hfound
  exact ⟨hlt, v, index, t, hh, ht, hs⟩

theorem shortcutFrom_eq_ok {start : Nat} : ∀ {left : Nat} {c : Shortcut},
    w.shortcutFrom hops (w.startOf hops start) start left = .ok (some c) →
    w.IsCut hops c ∧ c.first = start ∧ c.stop ≤ start + left
  | 0, c, h => by cases h
  | left + 1, c, h => by
    have rest : w.shortcutFrom hops (w.startOf hops start) start left = .ok (some c) →
        w.IsCut hops c ∧ c.first = start ∧ c.stop ≤ start + (left + 1) := by
      intro h
      obtain ⟨hcut, hfirst, hle⟩ := shortcutFrom_eq_ok h
      exact ⟨hcut, hfirst, by omega⟩
    rw [shortcutFrom] at h
    dsimp only at h
    split at h
    · rename_i hop hhop
      split at h
      · rename_i hf
        simp only [bind_eq_ok] at h
        obtain ⟨found, hfound, h⟩ := h
        split at h
        · rename_i htrue
          subst htrue
          obtain rfl := Option.some.inj (pure_eq_ok.1 h)
          have hdepth : start + left + 1 + 1 - start = left + 2 := by omega
          exact ⟨isCut_of_found (by omega) hhop hf (hdepth ▸ hfound), rfl, Nat.le_refl _⟩
        · exact rest h
      · exact rest h
    · exact rest h

/-! ## Along findable hops -/

theorem farthest_eq_ok {a : ν} {current : Nat} : ∀ {left next : Nat},
    w.farthest hops a current left = .ok next → next = current + 1 ∨
      current + 1 < next ∧ next ≤ current + left ∧ ∃ h, hops[next]? = some h ∧
        w.isFoundFrom a h.node (next - current) = .ok true
  | 0, next, h | 1, next, h => .inl (pure_eq_ok.1 h).symm
  | left + 2, next, h => by
    have rest : w.farthest hops a current (left + 1) = .ok next → next = current + 1 ∨
        current + 1 < next ∧ next ≤ current + (left + 2) ∧ ∃ h, hops[next]? = some h ∧
          w.isFoundFrom a h.node (next - current) = .ok true := by
      intro h
      rcases farthest_eq_ok h with h | ⟨hlt, hle, hfound⟩
      · exact .inl h
      · exact .inr ⟨hlt, by omega, hfound⟩
    rw [farthest] at h
    dsimp only at h
    split at h
    · rename_i hop hhop
      simp only [bind_eq_ok] at h
      obtain ⟨found, hfound, h⟩ := h
      split at h
      · rename_i htrue
        subst htrue
        obtain rfl := pure_eq_ok.1 h
        have hdepth : current + left + 2 - current = left + 2 := by omega
        exact .inr ⟨by omega, by omega, hop, hhop, hdepth ▸ hfound⟩
      · exact rest h
    · exact rest h

theorem shortcutsAlong_eq_ok {last : Nat} : ∀ {fuel current : Nat} {cuts : List Shortcut},
    w.shortcutsAlong hops last fuel current = .ok cuts →
    (∀ k, current ≤ k → k ≤ last → ∃ h, hops[k]? = some h ∧ h.isFindable = true) →
    Shortcut.Cuts (w.IsCut hops) (current + 1) (last + 1) cuts
  | 0, current, cuts, h, _ => by
    obtain rfl := pure_eq_ok.1 h
    exact .nil
  | fuel + 1, current, cuts, h, hall => by
    rw [shortcutsAlong] at h
    split at h
    · obtain rfl := pure_eq_ok.1 h
      exact .nil
    rename_i hlast
    simp only [bind_eq_ok] at h
    obtain ⟨next, hnext, h⟩ := h
    split at h
    · rename_i hlt
      simp only [bind_eq_ok, pure_eq_ok] at h
      obtain ⟨more, hmore, rfl⟩ := h
      obtain ⟨-, hle, hop, hhop, hfound⟩ := (farthest_eq_ok hnext).resolve_left (by omega)
      obtain ⟨hop', hhop', hf⟩ := hall next (by omega) (by omega)
      obtain rfl : hop' = hop := Option.some.inj (hhop'.symm.trans hhop)
      have hdepth : next + 1 - (current + 1) = next - current := by omega
      have hcut : w.IsCut hops ⟨current + 1, next⟩ := isCut_of_found hlt hhop hf (hdepth ▸ hfound)
      have hrest := shortcutsAlong_eq_ok hmore fun k hk => hall k (by omega)
      exact (Shortcut.Cuts.single hcut).append hrest (by simp; omega) (by simp; omega)
    · rename_i hlt
      obtain rfl : next = current + 1 := (farthest_eq_ok hnext).resolve_right fun hr => hlt hr.1
      have hrest := shortcutsAlong_eq_ok h fun k hk => hall k (by omega)
      exact hrest.weaken (Nat.le_succ _) (Nat.le_refl _)

/-! ## On the whole route -/

/-- Along the long runs of findable hops from hop `kept` on. -/
theorem cuts_along {kept stop : Nat} {along : List (List Shortcut)}
    (h : ((Shortcut.runs (((hops.take stop).drop kept).map Hop.isFindable) kept none).filter
      fun r => r.1 + 3 ≤ r.2).mapM (fun r => w.shortcutsAlong hops (r.2 - 1) (r.2 - 1 - r.1) r.1) =
        .ok along) :
    Shortcut.Cuts (w.IsCut hops) (kept + 1) stop along.flatten := by
  generalize hlong : (Shortcut.runs _ kept none).filter _ = long at h
  refine Shortcut.Cuts.along hlong ?_
  refine ((List.forall₂_and_left _ _).2 ⟨fun r hr => Shortcut.findable_of_runs hlong hr, mapM_eq_ok h⟩).imp ?_
  rintro r cs ⟨⟨-, hlt, -, hall⟩, hcs⟩
  exact shortcutsAlong_eq_ok hcs fun k hk hk' => hall k hk (by omega)

omit [DecidableEq ν] in
theorem le_firstIn {start stop : Nat} : start ≤ w.firstIn hops start stop := by
  unfold firstIn
  split <;> simp

theorem shortcutsFrom_eq_ok {first stop : Nat} {cuts : List Shortcut}
    (h : w.shortcutsFrom hops first stop = .ok cuts) : Shortcut.Cuts (w.IsCut hops) first stop cuts := by
  unfold shortcutsFrom at h
  split at h
  · obtain rfl := pure_eq_ok.1 h
    exact .nil
  rename_i hstop
  simp only [bind_eq_ok, pure_eq_ok] at h
  obtain ⟨top, htop, along, halong, rfl⟩ := h
  have hcuts := cuts_along halong
  cases top with
  | none => exact hcuts.weaken (by simp) (Nat.le_refl _)
  | some c =>
    obtain ⟨hcut, hfirst, hle⟩ := shortcutFrom_eq_ok htop
    have hlt := hcut.lt
    exact ((Shortcut.Cuts.single hcut).append hcuts (by omega) (by omega)).weaken (by omega) (Nat.le_refl _)

theorem shortcutsIn_eq_ok {start stop : Nat} {cuts : List Shortcut}
    (h : w.shortcutsIn hops start stop = .ok cuts) : Shortcut.Cuts (w.IsCut hops) start stop cuts := by
  rw [shortcutsIn] at h
  exact (shortcutsFrom_eq_ok h).weaken le_firstIn (Nat.le_refl _)

theorem shortcuts_eq_ok {cuts : List Shortcut} (h : w.shortcuts hops = .ok cuts) :
    Shortcut.Cuts (w.IsCut hops) 0 hops.length cuts := by
  simp only [shortcuts, bind_eq_ok, pure_eq_ok] at h
  obtain ⟨css, hcss, rfl⟩ := h
  refine Shortcut.Cuts.flatten ((mapM_eq_ok hcss).imp fun r cs hcs => shortcutsIn_eq_ok hcs) ?_
    (Shortcut.runs_apart _ _ _)
  intro r hr
  have hwithin := Shortcut.runs_within (P := fun _ => True) (hops.map Hop.isStructural) 0 none
    (fun _ _ => trivial) (by rintro _ ⟨⟩) r hr
  simp only [List.length_map, Nat.zero_add] at hwithin
  omega

end View

end Waymark
