import Waymark.Proofs.View.Coherent

/-!
# Searches that single out a node

A search singles a node out if that node is its result whether the search is strict or not. A child that
has no twin among its siblings is singled out by a search from its parent: the parent is not passed over,
the child fits exactly, and whatever else fits exactly would be a twin.
-/

namespace Waymark

variable {ν α : Type}

/-! ## Scores -/

namespace Best

def IsInexact (b : Best α) : Prop := ∀ n score, b.found = some (n, score) → score ≠ .exact

def single (n : α) : Best α := ⟨some (n, .exact), false⟩

theorem isInexact_empty : IsInexact ({} : Best α) := nofun

theorem not_better_exact {score : Score} : score.better .exact = false := by
  simp [Score.better, Score.exact]

theorem exact_better {score : Score} (h : score ≠ .exact) : Score.better .exact score = true := by
  obtain ⟨d, e⟩ := score
  have hne : ¬ (d = 0 ∧ e = 0) := by simpa [Score.exact] using h
  have hlt : 0 < d ∨ 0 = d ∧ 0 < e := by omega
  show (decide (0 < d) || (0 == d && decide (0 < e))) = true
  simpa using hlt

theorem IsInexact.offer_exact {b : Best α} (h : b.IsInexact) (n : α) : b.offer n .exact = single n := by
  unfold offer
  split
  · rfl
  · rename_i m top htop
    have hne := h m top htop
    rw [if_neg (Ne.symm hne), if_pos (exact_better hne)]
    rfl

theorem IsInexact.offer {b : Best α} (h : b.IsInexact) (n : α) {score : Score} (hs : score ≠ .exact) :
    (b.offer n score).IsInexact := by
  unfold Best.offer
  split
  · rintro _ _ ⟨⟩
    exact hs
  · rename_i m top htop
    split
    · exact fun m' score' hm => h m' score' hm
    split
    · rintro _ _ ⟨⟩
      exact hs
    · exact h

theorem single_offer (v n : α) {score : Score} (hs : score ≠ .exact) :
    (single v).offer n score = single v := by
  unfold Best.offer single
  simp only [if_neg hs, not_better_exact]
  simp

theorem IsInexact.not_settled {b : Best α} (h : b.IsInexact) : b.isSettled = false := by
  unfold isSettled
  split
  · rename_i n top htop
    simp [h n top htop]
  · rfl

theorem outcome_strict {b : Best α} {v : α} {score : Score} (h : b.outcome true = .best v score) :
    b.outcome false = .best v score := by
  unfold outcome at h ⊢
  split at h
  · cases h
  · simp only [Bool.and_true] at h
    split at h
    · cases h
    · simpa using h

end Best

namespace View

variable {w : View ν}

/-! ## One node of a search -/

section
variable [DecidableEq ν]

section
variable {t : Sought} {strict : Bool} {fuel depth count : Nat} {v : ν} {stack st : List (ν × Nat)}
variable {best best' : Best ν}

theorem searchFrom_external (hext : w.host.isExternal v = true) (hcount : w.childCount v = .ok count)
    (hst : w.pushChildren v (depth + 1) count stack = .ok st) :
    w.searchFrom t strict none (fuel + 1) ((v, depth) :: stack) best =
      w.searchFrom t strict none fuel st best := by
  rw [searchFrom, if_neg (by simp), if_pos hext, hcount]
  show (w.pushChildren v (depth + 1) count stack >>= _) = _
  rw [hst]
  rfl

theorem searchFrom_away (hext : w.host.isExternal v = false) (haway : w.isAway t v = true) :
    w.searchFrom t strict none (fuel + 1) ((v, depth) :: stack) best =
      w.searchFrom t strict none fuel stack best := by
  rw [searchFrom, if_neg (by simp), if_neg (by simp [hext]), if_pos haway]

theorem searchFrom_considered (hext : w.host.isExternal v = false) (haway : w.isAway t v = false)
    (hbest : w.consider t v depth best = .ok best') (hopen : best'.isSettled = false)
    (hcount : w.childCount v = .ok count) (hst : w.pushChildren v (depth + 1) count stack = .ok st) :
    w.searchFrom t strict none (fuel + 1) ((v, depth) :: stack) best =
      w.searchFrom t strict none fuel st best' := by
  rw [searchFrom, if_neg (by simp), if_neg (by simp [hext]), if_neg (by simp [haway]), hbest]
  show (if (strict && best'.isSettled) = true then _ else _) = _
  rw [hopen, Bool.and_false, if_neg (by simp), hcount]
  show (w.pushChildren v (depth + 1) count stack >>= _) = _
  rw [hst]
  rfl

end

/-- A strict search that finds a node finds what the search that is not strict finds. -/
theorem searchFrom_strict {t : Sought} {ignore : Option ν} {v : ν} {score : Score} :
    ∀ {fuel : Nat} {stack : List (ν × Nat)} {best : Best ν},
      w.searchFrom t true ignore fuel stack best = .ok (.best v score) →
      w.searchFrom t false ignore fuel stack best = .ok (.best v score)
  | fuel, [], best, h => by
    rw [searchFrom, pure_eq_ok] at h ⊢
    exact Best.outcome_strict h
  | 0, (u, d) :: stack, best, h => by cases h
  | fuel + 1, (u, d) :: stack, best, h => by
    rw [searchFrom] at h ⊢
    split at h
    · rename_i hskip
      rw [if_pos hskip]
      exact searchFrom_strict h
    · rename_i hskip
      rw [if_neg hskip]
      split at h
      · rename_i hext
        rw [if_pos hext]
        simp only [bind_eq_ok] at h ⊢
        obtain ⟨count, hcount, st, hst, h⟩ := h
        exact ⟨count, hcount, st, hst, searchFrom_strict h⟩
      · rename_i hext
        rw [if_neg hext]
        split at h
        · rename_i haway
          rw [if_pos haway]
          exact searchFrom_strict h
        · rename_i haway
          rw [if_neg haway]
          simp only [bind_eq_ok, Bool.true_and, Bool.false_and] at h ⊢
          obtain ⟨best', hbest, h⟩ := h
          refine ⟨best', hbest, ?_⟩
          split at h
          · cases h
          · simp only [bind_eq_ok] at h
            obtain ⟨count, hcount, st, hst, h⟩ := h
            rw [if_neg (by simp)]
            simp only [bind_eq_ok]
            exact ⟨count, hcount, st, hst, searchFrom_strict h⟩

/-! ## Singling out -/

def Singles (w : View ν) (a : ν) (t : Sought) (v : ν) : Prop :=
  ∃ score, ∀ strict, w.bestMatch a t strict = .ok (.best v score)

theorem singles_of_unique {a v : ν} {t : Sought} (h : w.uniqueMatch a t = .ok (some v)) :
    w.Singles a t v := by
  simp only [uniqueMatch, bind_eq_ok, pure_eq_ok] at h
  obtain ⟨m, hm, hv⟩ := h
  cases m with
  | best n score =>
    obtain rfl : n = v := by simpa [Match.node?] using hv
    refine ⟨score, fun strict => ?_⟩
    cases strict
    · exact searchFrom_strict hm
    · exact hm
  | none => cases hv
  | ambiguous => cases hv

theorem Singles.follow {a v : ν} {f : Fingerprint} (h : w.Singles a (w.soughtOf f) v) :
    w.follow a (.nearest f) = .ok (some v) := by
  obtain ⟨score, h⟩ := h
  rw [View.follow, h false]
  rfl

theorem Singles.not_ambiguous {a v : ν} {f : Fingerprint} (h : w.Singles a (w.soughtOf f) v) :
    w.isAmbiguous a f = .ok false := by
  obtain ⟨score, h⟩ := h
  rw [isAmbiguous, uniqueMatch, h true]
  rfl

end

/-- A fingerprint describes its node as well as the node itself does. -/
theorem soughtAt_of_fingerprint {v : ν} {depth : Nat} {f : Fingerprint} (hd : depth < 2 ^ 32)
    (h : w.fingerprint v depth = .ok f) : w.soughtAt v depth = .ok (w.soughtOf f) := by
  simp only [fingerprint, bind_eq_ok, pure_eq_ok] at h
  obtain ⟨s, hs, rfl⟩ := h
  have hdepth : depth.toUInt32.toNat = depth := by
    rw [Nat.toUInt32, UInt32.toNat_ofNat', Nat.mod_eq_of_lt hd]
  rw [soughtAt, hs]
  show Except.ok _ = Except.ok _
  congr 1
  unfold soughtOf
  simp only [hdepth]
  congr 1
  unfold mark Host.mark
  cases w.config.identify with
  | label => cases w.host.shownLabel v <;> rfl
  | type => cases w.host.shownLabel v <;> rfl

/-! ## Children without twins -/

variable (w) in
/-- The child of `p` that is looked for, as a search from `p` sees it. -/
structure Alone (p v : ν) (t : Sought) : Prop where
  child : w.host.IsChild p v
  mark : w.mark v = t.mark
  span : w.span v = .ok t.span
  depth : t.depth = 1
  meaningful : t.span.isMeaningful = true
  notExternal : w.host.isExternal v = false
  noTwin : ∀ u, w.host.IsChild p u → u ≠ v → w.mark u = t.mark → w.span u ≠ .ok t.span

variable (w) in
/-- What a search from `p` has yet to go through: below `p`, and one level below only children of `p`. -/
def IsStack (p : ν) (stack : List (ν × Nat)) : Prop :=
  ∀ x ∈ stack, 1 ≤ x.2 ∧ (x.2 = 1 → w.host.IsChild p x.1)

theorem IsStack.push {p : ν} {stack : List (ν × Nat)} (h : w.IsStack p stack) {depth : Nat}
    (hd : 1 ≤ depth) (cs : List ν) : w.IsStack p (cs.map (·, depth + 1) ++ stack) := by
  intro x hx
  rcases List.mem_append.1 hx with hx | hx
  · obtain ⟨c, -, rfl⟩ := List.mem_map.1 hx
    exact ⟨by simp, fun h1 => by simp at h1; omega⟩
  · exact h x hx

/-- How a search for `v` stands: `v` is yet to come and nothing is exact, or `v` is the only exact match. -/
def Stage (v : ν) (seen : List ν) (stack : List (ν × Nat)) (best : Best ν) : Prop :=
  (v, 1) ∈ stack ∧ best.IsInexact ∨ v ∈ seen ∧ best = .single v

theorem Stage.open {v : ν} {seen : List ν} {stack : List (ν × Nat)} {best : Best ν}
    (h : Stage v seen stack best) : best.isSettled = false := by
  rcases h with ⟨-, h⟩ | ⟨-, rfl⟩
  · exact h.not_settled
  · rfl

/-- Past a node that is not `v`. -/
theorem Stage.pass {u v : ν} {d : Nat} {seen : List ν} {stack rest : List (ν × Nat)} {best best' : Best ν}
    (h : Stage v seen ((u, d) :: stack) best) (huv : u ≠ v) (hrest : ∀ x ∈ stack, x ∈ rest)
    (hin : best.IsInexact → best'.IsInexact) (hsingle : best = .single v → best' = .single v) :
    Stage v (u :: seen) rest best' := by
  rcases h with ⟨hmem, hb⟩ | ⟨hmem, hb⟩
  · refine .inl ⟨hrest _ ((List.mem_cons.1 hmem).resolve_left fun he => huv ?_), hin hb⟩
    exact (congrArg Prod.fst he).symm
  · exact .inr ⟨List.mem_cons_of_mem u hmem, hsingle hb⟩

section
variable {N : ν → Prop} (hc : w.host.Coherent w.root N) (hn : w.host.Nested w.config.positions N)
variable {p v : ν} {t : Sought}

include hc in
/-- A node that does not fit exactly does not take the place of one that does. -/
theorem consider_inexact {u : ν} (hu : N u) (depth : Nat)
    (hfit : depth = t.depth → w.mark u = t.mark → w.span u ≠ .ok t.span) (best : Best ν) :
    ∃ best', w.consider t u depth best = .ok best' ∧ (best.IsInexact → best'.IsInexact) ∧
      ∀ v, best = .single v → best' = .single v := by
  rw [consider]
  by_cases hm : w.mark u = t.mark
  · obtain ⟨s, hs⟩ := span_total hc hu
    rw [if_pos hm, hs]
    refine ⟨_, rfl, ?_⟩
    have hinexact : (⟨s.distance t.span, if depth ≤ t.depth then t.depth - depth else depth - t.depth⟩ :
        Score) ≠ .exact := by
      intro he
      obtain ⟨hdist, hdepth⟩ := Score.mk.inj he
      have hd : depth = t.depth := by
        split at hdepth <;> omega
      rw [Span.distance_eq_zero] at hdist
      exact hfit hd hm (hdist ▸ hs)
    refine ⟨fun h => h.offer u hinexact, ?_⟩
    rintro v rfl
    exact Best.single_offer v u hinexact
  · rw [if_neg hm]
    exact ⟨best, rfl, id, fun _ h => h⟩

theorem consider_self (ha : w.Alone p v t) {best : Best ν} (h : best.IsInexact) :
    w.consider t v 1 best = .ok (.single v) := by
  rw [consider, if_pos ha.mark, ha.span]
  show Except.ok (best.offer v ⟨t.span.distance t.span, if 1 ≤ t.depth then t.depth - 1 else 1 - t.depth⟩) = _
  rw [ha.depth, Span.distance_eq_zero.2 rfl]
  exact congrArg Except.ok (h.offer_exact v)

variable (w) in
structure Spares (N : ν → Prop) : Prop where
  child : ∀ p v t, N v → w.Alone p v t → w.isAway t v = false
  parent : ∀ p v t, N p → w.Alone p v t → w.host.isExternal p = false → w.isAway t p = false

theorem isAway_eq_false {u : ν}
    (h : (w.rawSpan u).isMeaningful = true → (w.rawSpan u).overlaps t.span = true) :
    w.isAway t u = false := by
  unfold isAway
  by_cases hm : (w.rawSpan u).isMeaningful = true
  · simp [h hm]
  · simp [hm]

include hc hn in
theorem spares_of_nested : w.Spares N where
  child _ _ _ hv ha := isAway_eq_false fun hm => overlaps_own hn hv hm ha.span
  parent _ _ _ hp ha hext :=
    isAway_eq_false fun hm => overlaps_child hc hn hp ha.child hext hm ha.span ha.meaningful

variable (hs : w.Spares N)

variable [DecidableEq ν]

include hc hs in
/-- From below the parent on, the search finds the child and nothing else. -/
theorem searchFrom_alone (ha : w.Alone p v t) (hp : N p) {strict : Bool} : ∀ (fuel : Nat)
    (seen : List ν) {stack : List (ν × Nat)} {best : Best ν},
    (itself hc).Sweep p seen (stack.map Prod.fst) → w.host.size < seen.length + fuel →
    w.IsStack p stack → Stage v seen stack best →
    w.searchFrom t strict none fuel stack best = .ok (.best v .exact)
  | fuel, seen, [], best, _, _, _, hstage => by
    rcases hstage with ⟨hmem, -⟩ | ⟨-, rfl⟩
    · cases hmem
    · rw [searchFrom]
      rfl
  | 0, seen, (u, d) :: stack, best, hsweep, hf, _, _ => by
    have hlen : (u :: seen).length ≤ w.host.size + 1 := hsweep.skip.length_le.1
    simp only [List.length_cons] at hlen
    omega
  | fuel + 1, seen, (u, d) :: stack, best, hsweep, hf, hstack, hstage => by
    have hu : N u := (hsweep.stack_inBoth u (by simp)).elim (fun h => h ▸ hp) fun h => h.isNode
    obtain ⟨hd, hchild⟩ := hstack (u, d) (by simp)
    have hrest : w.IsStack p stack := fun x hx => hstack x (List.mem_cons_of_mem _ hx)
    have hlt : w.host.size < (u :: seen).length + fuel := by simp; omega
    obtain ⟨count, hcount, htold⟩ := childCount_gives hc.grown hu
    obtain ⟨st, hst⟩ := pushChildren_total hc hu htold (d + 1) count stack (Nat.le_refl _)
    obtain ⟨cs, rfl, -, hcs⟩ := pushChildren_eq_ok hst
    -- How the search goes on below the node.
    have descend : ∀ best', Stage v (u :: seen) (cs.map (·, d + 1) ++ stack) best' →
        w.searchFrom t strict none fuel (cs.map (·, d + 1) ++ stack) best' = .ok (.best v .exact) := by
      intro best' hstage'
      refine searchFrom_alone ha hp fuel (u :: seen) ?_ hlt (hrest.push hd cs) hstage'
      have hsweep' := hsweep.descend hp hcs
      simpa [Function.comp_def] using hsweep'
    by_cases huv : u = v
    · have hpend := hstage.resolve_right fun h => hsweep.notMem (huv ▸ h.1)
      have hd1 : d = 1 := by
        rcases List.mem_cons.1 hpend.1 with h | h
        · exact (congrArg Prod.snd h).symm
        · have hapart := (List.pairwise_cons.1 hsweep.apart).1 v (List.mem_map_of_mem h) v
          exact absurd .refl (hapart (huv ▸ .refl))
      rw [searchFrom_considered (huv ▸ ha.notExternal) (huv ▸ hs.child p v t (huv ▸ hu) ha)
        (huv ▸ hd1 ▸ consider_self ha hpend.2) rfl hcount hst]
      exact descend _ (.inr ⟨huv ▸ List.mem_cons_self, by rw [huv]⟩)
    · have hsub : ∀ x ∈ stack, x ∈ cs.map (·, d + 1) ++ stack := fun x hx => List.mem_append_right _ hx
      cases hext : w.host.isExternal u with
      | true =>
        rw [searchFrom_external hext hcount hst]
        exact descend best (hstage.pass huv hsub id id)
      | false =>
        cases haway : w.isAway t u with
        | true =>
          rw [searchFrom_away hext haway]
          exact searchFrom_alone ha hp fuel (u :: seen) hsweep.skip hlt hrest
            (hstage.pass huv (fun _ hx => hx) id id)
        | false =>
          obtain ⟨best', hbest, hin, hsingle⟩ := consider_inexact hc (t := t) hu d
            (fun h hm => ha.noTwin u (hchild (h.trans ha.depth)) huv hm) best
          have hstage' := hstage.pass huv hsub hin (hsingle v)
          rw [searchFrom_considered hext haway hbest hstage'.open hcount hst]
          exact descend best' hstage'

include hc hs in
/-- A child without twins is singled out from its parent. -/
theorem singles_alone (ha : w.Alone p v t) (hp : N p) : w.Singles p t v := by
  refine ⟨.exact, fun strict => ?_⟩
  obtain ⟨count, hcount, htold⟩ := childCount_gives hc.grown hp
  obtain ⟨st, hst⟩ := pushChildren_total hc hp htold 1 count [] (Nat.le_refl _)
  obtain ⟨cs, rfl, hlen, hcs⟩ := pushChildren_eq_ok hst
  have hmem : v ∈ cs := by
    obtain ⟨i, count', hcount', hi, hv⟩ := ha.child
    have hlt : i < cs.length := by
      rw [hlen]
      rw [told_eq_ok.1 hcount] at hcount'
      cases hcount'
      exact hi
    obtain ⟨_, _, _, hv'⟩ := hcs i cs[i] (List.getElem?_eq_getElem hlt)
    rw [hv] at hv'
    cases hv'
    exact List.getElem_mem hlt
  -- How the search goes on below the parent.
  have descend : ∀ best : Best ν, best.IsInexact →
      w.searchFrom t strict none w.host.size (cs.map (·, 1) ++ []) best = .ok (.best v .exact) := by
    intro best hbest
    refine searchFrom_alone hc hs ha hp w.host.size [p] ?_ (by simp) ?_ ?_
    · have hfirst : (itself hc).Sweep p [] [p] := .first
      simpa [Function.comp_def] using hfirst.descend hp hcs
    · intro x hx
      obtain ⟨c, hc', rfl⟩ := List.mem_map.1 (by simpa using hx)
      obtain ⟨i, hi⟩ := List.mem_iff_getElem?.1 hc'
      exact ⟨Nat.le_refl _, fun _ => ⟨i, hcs i c hi⟩⟩
    · exact .inl ⟨by simpa using hmem, hbest⟩
  rw [bestMatch, reach]
  cases hext : w.host.isExternal p with
  | true =>
    rw [searchFrom_external hext hcount hst]
    exact descend _ Best.isInexact_empty
  | false =>
    obtain ⟨best, hbest, hin, -⟩ := consider_inexact hc (t := t) hp 0
      (fun h => absurd (h.trans ha.depth) (by decide)) {}
    have hin' := hin Best.isInexact_empty
    rw [searchFrom_considered hext (hs.parent p v t hp ha hext) hbest hin'.not_settled hcount hst]
    exact descend best hin'

omit [DecidableEq ν] in
theorem mem_children {us : List ν} (h : w.children p = .ok us) (hv : w.host.IsChild p v) : v ∈ us := by
  simp only [children, bind_eq_ok] at h
  obtain ⟨count, hcount, h⟩ := h
  obtain ⟨i, hv⟩ := hv
  have hi : i < (List.range count).length := by
    obtain ⟨count', hcount', hi, -⟩ := hv
    rw [told_eq_ok.1 hcount] at hcount'
    cases hcount'
    simpa using hi
  have hall := mapM_eq_ok h
  have hget := hall.get hi (hall.length_eq ▸ hi)
  rw [List.get_eq_getElem, List.getElem_range, child_eq_ok.2 hv] at hget
  rw [Except.ok.inj hget]
  exact List.get_mem _ _

theorem hasTwin_eq_ok {s : Span} : ∀ {us : List ν}, w.hasTwin v s us = .ok false →
    ∀ u ∈ us, u ≠ v → w.mark u = w.mark v → w.span u ≠ .ok s
  | [], _ => by simp
  | x :: us, h => by
    rw [hasTwin] at h
    have rest : w.hasTwin v s us = .ok false ∧ (x ≠ v → w.mark x = w.mark v → w.span x ≠ .ok s) := by
      split at h
      · rename_i hx
        exact ⟨h, fun hne => absurd hx hne⟩
      split at h
      · simp only [bind_eq_ok] at h
        obtain ⟨s', hs', h⟩ := h
        split at h
        · cases h
        · rename_i hne
          refine ⟨h, fun _ _ hs => hne ?_⟩
          rw [hs] at hs'
          cases hs'
          rfl
      · rename_i hm
        exact ⟨h, fun _ hm' => absurd hm' hm⟩
    intro u hu
    rcases List.mem_cons.1 hu with rfl | hu
    · exact rest.2
    · exact hasTwin_eq_ok rest.1 u hu

/-- What may be looked for by a search stands alone among its siblings. -/
theorem alone_of_findable (hv : w.host.IsChild p v) (h : w.isFindable p v = .ok true) :
    ∃ t, w.soughtAt v 1 = .ok t ∧ w.Alone p v t := by
  simp only [isFindable, bind_eq_ok] at h
  obtain ⟨s, hs, h⟩ := h
  split at h
  · cases h
  split at h
  · cases h
  rename_i hm hext
  simp only [bind_eq_ok, pure_eq_ok, Bool.not_eq_true'] at h
  obtain ⟨us, hus, twin, htwin, rfl⟩ := h
  refine ⟨⟨w.mark v, s, 1⟩, by rw [soughtAt, hs]; rfl, hv, rfl, hs, rfl, by simpa using hm,
    by simpa using hext, fun u hu => ?_⟩
  exact hasTwin_eq_ok htwin u (mem_children hus hu)

end

end View

end Waymark
