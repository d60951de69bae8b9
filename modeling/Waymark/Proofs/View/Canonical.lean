import Waymark.Proofs.View.RoundTrip

/-!
# Resolving settles at once

Whatever locator is resolved, the locator in the answer is answered by itself. If the node has a locator in
the present tree then this is the one in the answer, and it leads back; if it has none then the answer
repeats the locator that was asked for, which leads where it led before.
-/

namespace Waymark

variable {ν : Type} [DecidableEq ν]

namespace View

variable {w : View ν} {l : Locator} {r : Resolution ν}

theorem resolve_eq_ok : w.resolve l = .ok (some r) ↔ w.resolveSteps l.steps = .ok (some r.node) ∧
    w.span r.node = .ok r.span ∧ ∃ fresh, w.locate r.node = .ok fresh ∧ r.locator = fresh.getD l := by
  constructor
  · intro h
    simp only [resolve, bind_eq_ok] at h
    obtain ⟨found, hsteps, h⟩ := h
    cases found with
    | none => cases h
    | some v =>
      simp only [bind_eq_ok] at h
      obtain ⟨span, hspan, fresh, hfresh, h⟩ := h
      cases fresh <;> cases h <;> exact ⟨hsteps, hspan, _, hfresh, rfl⟩
  · intro h
    obtain ⟨hsteps, hspan, fresh, hfresh, hlocator⟩ := h
    rw [resolve, hsteps]
    show (w.span r.node >>= _) = _
    rw [hspan]
    show (w.locate r.node >>= _) = _
    rw [hfresh]
    obtain ⟨v, span, locator⟩ := r
    subst hlocator
    cases fresh <;> rfl

theorem resolve_settled {N : ν → Prop} (hc : w.host.Coherent w.root N)
    (hn : w.host.Nested w.config.positions N) (hm : w.host.Measured N) (hv : N r.node)
    (h : w.resolve l = .ok (some r)) : w.resolve r.locator = .ok (some r) := by
  obtain ⟨hsteps, hspan, fresh, hfresh, hlocator⟩ := resolve_eq_ok.1 h
  refine resolve_eq_ok.2 ⟨?_, hspan, fresh, hfresh, ?_⟩
  · rw [hlocator]
    cases fresh with
    | none => exact hsteps
    | some f => exact (leadsBack_locate hc hn hm r.node hv f hfresh).followAll
  · rw [hlocator]
    cases fresh <;> rfl

end View

/-! ## In every snapshot -/

open Op Snapshot

namespace Rebuild

variable {B : Rebuild ν ν} {t : Snapshot ν} {l : Locator}

/-- What a snapshot answers is what the view finds. -/
theorem found_of_resolve (ht : t.Of B.copy B.Kept) {r : Resolved ν}
    (h : ((resolve l).exec B.copy.host t).1 = .ok (some r)) :
    ∃ found, B.view.resolve l = .ok (some found) ∧
      B.SameResolution ((resolve l).exec B.copy.host t).2 r found := by
  have hfits : B.Fits t (resolve l) _ _ := fits_resolve l
  have hagree := hfits.agree ht
  rw [h] at hagree
  generalize B.view.resolve l = found at hagree ⊢
  cases hagree with
  | ok hrel =>
    cases hrel with
    | some hr => exact ⟨_, rfl, hr⟩

/-- What the view finds is what a snapshot answers. -/
theorem resolve_of_found (ht : t.Of B.copy B.Kept) {found : View.Resolution ν}
    (h : B.view.resolve l = .ok (some found)) :
    ∃ r, ((resolve l).exec B.copy.host t).1 = .ok (some r) ∧
      B.SameResolution ((resolve l).exec B.copy.host t).2 r found := by
  have hfits : B.Fits t (resolve l) _ _ := fits_resolve l
  obtain ⟨_, hrun, hrel⟩ := (hfits.agree ht).exists_ok h
  cases hrel with
  | some hr => exact ⟨_, hrun, hr⟩

end Rebuild

/-- On a coherent tree with nested spans, whatever locator led to a node, the one in the answer has the same
answer again: from the snapshot as it was left with the same node, and from every snapshot with the same
settings with the node that has the same handle. The answers to all locators that lead to a node have the
locator that the node has in the present tree; if it has none, each of them keeps the one it was for. -/
theorem Host.Coherent.resolve_settles {host : Host ν} {root : ν} {N : ν → Prop} {config : Config}
    (hc : host.Coherent root N) (hn : host.Nested config.positions N) (hm : host.Measured N)
    {s t : Snapshot ν} (hs : s.History host root) (ht : t.History host root) (hsc : s.config = config)
    (htc : t.config = config) {l : Locator} {r : Resolved ν} {s' : Snapshot ν}
    (h : (resolve l).exec host s = (.ok (some r), s')) :
    ((resolve r.locator).exec host s').1 = .ok (some r) ∧
    (∃ m, ((resolve r.locator).exec host t).1 = .ok (some { r with node := m }) ∧
      ((resolve r.locator).exec host t).2.find? r.node.host = some m) ∧
    ∃ fresh, ((locate r.node).exec host s').1 = .ok fresh ∧ r.locator = fresh.getD l ∧
      ∀ l' r', ((resolve l').exec host t).1 = .ok (some r') → r'.node.host = r.node.host →
        r'.span = r.span ∧ r'.locator = fresh.getD l' := by
  let B := View.itself (w := ⟨host, config, root⟩) hc
  have hs₀ : s.Of B.copy B.Kept := Rebuild.of_history hs hsc
  have ht₀ : t.Of B.copy B.Kept := Rebuild.of_history ht htc
  obtain ⟨rfl, hrun⟩ : s' = ((resolve l).exec host s).2 ∧ ((resolve l).exec host s).1 = .ok (some r) := by
    rw [h]
    exact ⟨rfl, rfl⟩
  have hs' : ((resolve l).exec host s).2.Of B.copy B.Kept := (Rebuild.fits_resolve (B := B) l).after hs₀
  obtain ⟨found, hfound, hr⟩ := Rebuild.found_of_resolve hs₀ hrun
  have hsettled := View.resolve_settled (w := B.view) hc hn hm hr.node.2 hfound
  rw [← hr.locator] at hsettled
  have hhost : r.node.host = found.node := hr.node.host
  -- Any snapshot answers alike, up to the number of the node.
  have again : ∀ u : Snapshot ν, u.Of B.copy B.Kept → ∃ m,
      ((resolve r.locator).exec host u).1 = .ok (some { r with node := m }) ∧
      ((resolve r.locator).exec host u).2.find? r.node.host = some m := by
    intro u hu
    obtain ⟨⟨m, span, locator⟩, hrun', hr'⟩ := Rebuild.resolve_of_found hu hsettled
    have hspan : span = r.span := hr'.span.trans hr.span.symm
    have hlocator : locator = r.locator := hr'.locator.trans hr.locator.symm
    have hafter := (Rebuild.fits_resolve (B := B) r.locator).after hu
    subst hspan hlocator
    exact ⟨m, hrun', hafter.arena.find?_eq_some_iff.2 ⟨hr'.node.1.1, hr'.node.host.trans hhost.symm⟩⟩
  refine ⟨?_, again t ht₀, ?_⟩
  · -- In the snapshot that was left, the node is known already.
    obtain ⟨m, hrun', hm'⟩ := again _ hs'
    have hle := ((Rebuild.fits_resolve (B := B) r.locator) _ (le_refl _) hs').1
    have hafter := (Rebuild.fits_resolve (B := B) r.locator).after hs'
    have hknown := hafter.arena.find?_eq_some_iff.2 ⟨hr.node.1.1.mono hle, rfl⟩
    obtain rfl : m = r.node := Option.some.inj (hm'.symm.trans hknown)
    exact hrun'
  · obtain ⟨-, hspan, fresh, hfresh, hlocator⟩ := View.resolve_eq_ok.1 hfound
    refine ⟨fresh, ((Rebuild.fits_locate hr.node).agree hs').eq.trans hfresh, ?_, ?_⟩
    · rw [hr.locator, hlocator]
    · intro l' r' h' hsame
      obtain ⟨found', hfound', hr'⟩ := Rebuild.found_of_resolve ht₀ h'
      obtain ⟨-, hspan', fresh', hfresh', hlocator'⟩ := View.resolve_eq_ok.1 hfound'
      have hnode : found'.node = found.node := hr'.node.host.symm.trans (hsame.trans hhost)
      rw [hnode] at hspan' hfresh'
      obtain rfl : fresh' = fresh := Except.ok.inj (hfresh'.symm.trans hfresh)
      have hspans : found'.span = found.span := Except.ok.inj (hspan'.symm.trans hspan)
      rw [hr'.span, hr.span, hr'.locator, hlocator']
      exact ⟨hspans, rfl⟩

namespace Part

/-- Written by hand: the call is on what is nearest to a place that no node has, and its argument is a
child by its number. -/
def handWritten : Locator where
  result := { type := "Result", span := ⟨70, 80⟩, depth := 9 }
  steps := [.nearest { type := "Expr", span := ⟨6, 60⟩, depth := 7 },
    .derived ⟨"value", [.node (some ⟨firstFingerprint, [.child 0]⟩)]⟩]

theorem resolve_settles_tree :
    ((Op.resolve handWritten).exec tree (ofRoot {} tree block)).1.map (Option.map (·.locator)) =
        .ok (some resultLocator) ∧
      ∃ m span, ((Op.resolve resultLocator).exec tree asked).1 = .ok (some ⟨m, span, resultLocator⟩) := by
  have ht : asked.History tree block := (History.fresh {}).request (.node result)
  have hconfig : asked.config = {} := by cbv
  have hfresh : ((Op.resolve handWritten).exec tree (ofRoot {} tree block)).1.map (Option.map (·.locator)) =
      .ok (some resultLocator) := by decide +kernel
  refine ⟨hfresh, ?_⟩
  obtain ⟨o, hrun, ho⟩ := exists_of_map_eq_ok hfresh
  obtain ⟨r, rfl, hlocator⟩ := Option.map_eq_some_iff.1 ho
  obtain ⟨-, ⟨m, hm, -⟩, -⟩ := Host.Coherent.resolve_settles coherent_tree nested_tree measured_tree
    (History.fresh {}) ht rfl hconfig (exec_eq_of_result hrun)
  rw [hlocator] at hm
  exact ⟨m, r.span, hm⟩

end Part

end Waymark
