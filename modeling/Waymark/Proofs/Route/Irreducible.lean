import Waymark.Proofs.Route.Greedy
import Waymark.Proofs.Snapshot.BestMatch

/-!
# Locators cannot be shortened

In a tree that is told in full, a search finds the same from every snapshot. So what the greedy choice of
shortcuts left in a locator stays necessary: a search that would have left out more does not single out
the node it would have to lead to.
-/

namespace Waymark

open Relation Op Snapshot Shortcut

variable {ν : Type}

/-! ## Standing out -/

theorem Match.node?_map {α β : Type} (f : α → β) (m : Match α) : (m.map f).node? = m.node?.map f := by
  cases m <;> rfl

theorem Match.node?_ofLeaders_eq_some {α : Type} {l : List (α × Score)} {v : α} :
    (Match.ofLeaders true l).node? = some v ↔ ∃ score, l = [(v, score)] := by
  match l with
  | [] => simp [ofLeaders, node?]
  | [(u, score)] => simp [ofLeaders, node?]
  | x :: y :: rest => simp [ofLeaders, node?]

namespace View

open Classical in
noncomputable def theSpan (w : View ν) (v : ν) : Span :=
  if h : ∃ s, w.HasSpan v s then h.choose else .none

theorem HasSpan.eq_theSpan {w : View ν} {v : ν} {s : Span} (h : w.HasSpan v s) : s = w.theSpan v := by
  have hex : ∃ s, w.HasSpan v s := ⟨s, h⟩
  rw [theSpan, dif_pos hex]
  exact h.unique hex.choose_spec

variable [DecidableEq ν]

/-- Of all that a search from `a` goes through for a node like `v`, expected `depth` hops below, `v` fits
best, and nothing else fits as well. -/
def StandsOut (w : View ν) (a v : ν) (depth : Nat) : Prop :=
  let t : Sought := ⟨w.mark v, w.theSpan v, depth⟩
  ∃ (b : Branch ν) (score : Score), b.root = a ∧ w.host.Unfolds b ∧
    leaders (w.rated t w.theSpan (b.order (w.goesInto t none) 0)) = [(v, score)]

end View

namespace Op

variable [DecidableEq ν] {w : View ν} {K : Scope w.host} {E : Fault → Prop} {s₀ : Snapshot ν}

/-- A search that ends tells whether the node stands out. -/
theorem isFoundFrom_meets {U D : ν → Prop} {a n : Node ν} (hS : SearchExcuses w.host K E U D a.host)
    (hb : w.host.Branches a.host) (ha : s₀.Knows a) (hn : s₀.Knows n) (hU : U n.host) (hD : D n.host)
    (depth : Nat) :
    Keeps w K E s₀ (isFoundFrom a n depth) (fun _ b => b = true ↔ w.StandsOut a.host n.host depth) := by
  refine (targetAt_meets hS.toSpanExcuses hn hU hD depth).bind fun s target hs _ haim => ?_
  unfold uniqueMatch
  simp only [bind_assoc, pure_bind]
  refine (bestMatch_meets hS ⟨ha.mono hs, rfl⟩ target true none).bind ?_
  intro t m ht hi hm
  have hfound : ∀ b : Branch ν, b.root = a.host → w.host.Unfolds b → m.map Node.host =
      .ofLeaders true (leaders (w.rated ⟨w.mark n.host, w.theSpan n.host, depth⟩ w.theSpan
        (b.order (w.goesInto ⟨w.mark n.host, w.theSpan n.host, depth⟩ none) 0))) := by
    intro b hroot hunfolds
    refine (hm.found _ w.theSpan [(b, 0)] ⟨⟨haim.key, haim.span.eq_theSpan, haim.depth⟩, by simp, ?_⟩
      (.cons ⟨hroot, rfl, hunfolds⟩ .nil)).trans (View.searched_eq b)
    exact fun _ _ h => h.eq_theSpan
  -- The handle tells which node was found.
  have hnode : m.node? = some n ↔ (m.map Node.host).node? = some n.host := by
    rw [Match.node?_map, Option.map_eq_some_iff]
    constructor
    · intro h
      exact ⟨n, h, rfl⟩
    · intro ⟨x, hx, hhost⟩
      rw [hx, hi.arena.eq_of_host_eq (hm.knows x hx) (hn.mono (le_trans hs ht)) hhost]
  refine Meets.pure fun _ _ _ => ?_
  rw [decide_eq_true_eq, hnode]
  constructor
  · intro h
    obtain ⟨b, hroot, hunfolds⟩ := hb.exists_branch
    rw [hfound b hroot hunfolds, Match.node?_ofLeaders_eq_some] at h
    obtain ⟨score, h⟩ := h
    exact ⟨b, score, hroot, hunfolds, h⟩
  · intro ⟨b, score, hroot, hunfolds, h⟩
    rw [hfound b hroot hunfolds, Match.node?_ofLeaders_eq_some]
    exact ⟨score, h⟩

/-! ## Choosing shortcuts -/

/-- A search from where hop `i` begins singles out the end of hop `j`. -/
def FoundFrom (w : View ν) (root : Node ν) (hops : List (Hop (Node ν))) (i j : Nat) : Prop :=
  ∃ h, hops[j]? = some h ∧ w.StandsOut (startAt root hops i).host h.node.host (j + 1 - i)

section
variable {root : Node ν} {hops : List (Hop (Node ν))}

theorem foundFrom_iff {i j : Nat} {h : Hop (Node ν)} (hj : hops[j]? = some h) :
    FoundFrom w root hops i j ↔ w.StandsOut (startAt root hops i).host h.node.host (j + 1 - i) := by
  constructor
  · intro ⟨x, hx, hout⟩
    obtain rfl := Option.some.inj (hj.symm.trans hx)
    exact hout
  · intro hout
    exact ⟨h, hj, hout⟩

variable (hE : Excuses w.host K E) (hb : ∀ i, w.host.Branches (startAt root hops i).host)
include hE hb

theorem keeps_found {i j depth : Nat} {h : Hop (Node ν)} (hh : Laid s₀ root hops)
    (ha : s₀.Knows (startAt root hops i)) (hj : hops[j]? = some h) (hdepth : depth = j + 1 - i) :
    Keeps w K E s₀ (isFoundFrom (startAt root hops i) h.node depth)
      (fun _ b => b = true ↔ FoundFrom w root hops i j) := by
  refine (isFoundFrom_meets (hE.search _) (hb i) ha (hh.knows h (List.mem_of_getElem? hj)) trivial trivial
    depth).mono ?_ fun _ h => h
  intro _ b _ _ hiff
  rw [hiff, hdepth, foundFrom_iff hj]

theorem keeps_deepest {start : Nat} : ∀ (left : Nat) {s₀ : Snapshot ν}, Laid s₀ root hops →
    s₀.Knows (startAt root hops start) →
    Keeps w K E s₀ (shortcutFrom hops (startAt root hops start) start left)
      (fun _ top => Deepest (FoundFrom w root hops) (FindableAt hops) start (start + left + 1) top)
  | 0, _, _, _ => Meets.pure fun _ _ _ => .nothing
  | left + 1, s₀, hh, ha => by
    have rest : ∀ t, s₀ ≤ t →
        ¬ (FindableAt hops (start + left + 1) ∧ FoundFrom w root hops start (start + left + 1)) →
        Keeps w K E t (shortcutFrom hops (startAt root hops start) start left)
          (fun _ top => Deepest (FoundFrom w root hops) (FindableAt hops) start (start + (left + 1) + 1) top) := by
      intro t ht hnot
      refine (keeps_deepest left (hh.mono ht) (ha.mono ht)).mono ?_ fun _ h => h
      exact fun _ _ _ _ htop => htop.widen hnot
    rw [shortcutFrom]
    cases hk : hops[start + left + 1]? with
    | none =>
      refine rest s₀ (le_refl s₀) ?_
      rintro ⟨⟨h, hh, -⟩, -⟩
      rw [hk] at hh
      cases hh
    | some h =>
      dsimp only
      by_cases hf : h.isFindable = true
      · rw [if_pos hf]
        refine (keeps_found hE hb hh ha hk (by omega)).bind fun t b ht _ hiff => ?_
        by_cases htrue : b = true
        · rw [if_pos htrue]
          refine Meets.typeName_bind (Keeps.note_bind (Meets.pure fun _ _ _ => ?_))
          exact .last ⟨h, hk, hf⟩ (hiff.1 htrue) (by omega)
        · rw [if_neg htrue]
          exact rest t ht fun hP => htrue (hiff.2 hP.2)
      · rw [if_neg hf]
        refine rest s₀ (le_refl s₀) ?_
        rintro ⟨⟨x, hx, hfx⟩, -⟩
        obtain rfl := Option.some.inj (hk.symm.trans hx)
        exact hf hfx

theorem keeps_beyond {current : Nat} : ∀ (left : Nat) {s₀ : Snapshot ν}, Laid s₀ root hops →
    s₀.Knows (startAt root hops (current + 1)) →
    (∀ k, current ≤ k → k ≤ current + left → FindableAt hops k) →
    Keeps w K E s₀ (farthest hops (startAt root hops (current + 1)) current left)
      (fun _ next => (next = current + 1 ∨ current + 1 < next ∧ next ≤ current + left) ∧
        ∀ t, next < t → t ≤ current + left → ¬ FoundFrom w root hops (current + 1) t)
  | 0, _, _, _, _ | 1, _, _, _, _ => Meets.pure fun _ _ _ => ⟨.inl rfl, fun t hlt hle => by omega⟩
  | left + 2, s₀, hh, ha, hall => by
    obtain ⟨h, hk, -⟩ := hall (current + left + 2) (by omega) (by omega)
    rw [farthest]
    simp only [hk]
    refine (keeps_found hE hb hh ha hk (by omega)).bind fun t b ht _ hiff => ?_
    by_cases htrue : b = true
    · rw [if_pos htrue]
      exact Meets.pure fun _ _ _ => ⟨.inr ⟨by omega, by omega⟩, fun t hlt hle => by omega⟩
    · rw [if_neg htrue]
      refine (keeps_beyond (left + 1) (hh.mono ht) (ha.mono ht) fun k hk hk' =>
        hall k hk (by omega)).mono ?_ fun _ h => h
      rintro _ next - - ⟨hnext, hfar⟩
      refine ⟨hnext.imp_right fun h => ⟨h.1, by omega⟩, fun t hlt hle => ?_⟩
      rcases Nat.lt_or_ge t (current + left + 2) with hless | hmore
      · exact hfar t hlt (by omega)
      · obtain rfl : t = current + left + 2 := by omega
        exact mt hiff.2 htrue

theorem keeps_strides {last : Nat} : ∀ (fuel current : Nat) {s₀ : Snapshot ν}, Laid s₀ root hops →
    last ≤ current + fuel → (∀ k, current ≤ k → k ≤ last → FindableAt hops k) →
    Keeps w K E s₀ (shortcutsAlong hops last fuel current)
      (fun _ cuts => Strides (FoundFrom w root hops) last current cuts)
  | 0, _, _, _, hfuel, _ => Meets.pure fun _ _ _ => .done hfuel
  | fuel + 1, current, s₀, hh, hfuel, hall => by
    rw [shortcutsAlong]
    by_cases hlast : last ≤ current
    · rw [if_pos hlast]
      exact Meets.pure fun _ _ _ => .done hlast
    rw [if_neg hlast]
    refine (keeps_startOf hh (current + 1)).bind ?_
    rintro t _ ht - ⟨rfl, hknows⟩
    refine (keeps_beyond hE hb (last - current) (hh.mono ht) hknows fun k hk hk' =>
      hall k hk (by omega)).bind ?_
    rintro u next hu - ⟨hnext, hfar⟩
    have hlaid := hh.mono (le_trans ht hu)
    have hfar' : ∀ t, next < t → t ≤ last → ¬ FoundFrom w root hops (current + 1) t :=
      fun t hlt hle => hfar t hlt (by omega)
    have rest : Keeps w K E u (shortcutsAlong hops last fuel next)
        (fun _ cuts => Strides (FoundFrom w root hops) last next cuts) :=
      keeps_strides fuel next hlaid (by omega) fun k hk => hall k (by omega)
    by_cases hlt : current + 1 < next
    · rw [if_pos hlt]
      refine Keeps.note_bind (rest.bind fun _ cuts _ _ hcuts => Meets.pure fun _ _ _ => ?_)
      exact .jump hlt (by omega) hfar' hcuts
    · rw [if_neg hlt]
      obtain rfl : next = current + 1 := by omega
      exact rest.mono (fun _ cuts _ _ hcuts => .next (by omega) hfar' hcuts) fun _ h => h

theorem keeps_irreducibleFrom {lo hi : Nat} (hh : Laid s₀ root hops) (hhi : hi ≤ hops.length) :
    Keeps w K E s₀ (shortcutsFrom hops lo hi) (fun _ cuts => Within lo hi cuts ∧
      (lo < hi → ∃ first, Irreducible (FoundFrom w root hops) (FindableAt hops) (Kept cuts) lo hi first)) := by
  unfold shortcutsFrom
  by_cases hle : hi ≤ lo
  · rw [if_pos hle]
    exact Meets.pure fun _ _ _ => ⟨nofun, fun hlt => absurd hlt (Nat.not_lt.2 hle)⟩
  rw [if_neg hle]
  refine (keeps_startOf hh lo).bind ?_
  intro t a ht _ ⟨ha, hknows⟩
  subst ha
  refine (keeps_deepest hE hb (hi - 1 - lo) (hh.mono ht) hknows).bind fun u top hu _ htop => ?_
  have hend : lo + (hi - 1 - lo) + 1 = hi := by omega
  rw [hend] at htop
  dsimp only
  generalize hfirst : (top.map Shortcut.stop).getD lo = first
  generalize hlong : (runs _ first none).filter _ = long
  refine Meets.bind (Keeps.mapM (R := fun _ r cs => Strides (FoundFrom w root hops) (r.2 - 1) r.1 cs)
    (fun _ _ _ _ _ h => h) long ?_) ?_
  · intro r hr x hx
    obtain ⟨-, hlen, -, hall⟩ := findable_of_runs hlong hr
    exact keeps_strides hE hb _ r.1 (hh.mono (le_trans ht (le_trans hu hx))) (by omega)
      fun k hk hk' => hall k hk (by omega)
  · intro x along hx _ halong
    refine Meets.pure fun _ _ _ => ?_
    obtain ⟨hwithin, hirr⟩ := htop.irreducible (by omega) hhi hfirst hlong halong
    exact ⟨hwithin, fun _ => ⟨first, hirr⟩⟩

end

/-! ## Segments -/

/-- The hops from `lo` on and before `hi` are a longest run of structural hops, or what is below the search
root in it. -/
def IsSegment (w : View ν) (hops : List (Hop (Node ν))) (lo hi : Nat) : Prop :=
  ∃ start, LongestRun (StructuralAt hops) 0 hops.length start hi ∧ BeginsAt w hops start lo ∧ lo < hi

def AllIrreducible (w : View ν) (root : Node ν) (hops : List (Hop (Node ν))) (kept : Nat → Prop) : Prop :=
  ∀ lo hi, IsSegment w hops lo hi →
    ∃ first, Irreducible (FoundFrom w root hops) (FindableAt hops) kept lo hi first

section
variable {root : Node ν} {hops : List (Hop (Node ν))} (hE : Excuses w.host K E)
variable (hb : ∀ i, w.host.Branches (startAt root hops i).host)
include hE hb

theorem keeps_allIrreducible (hh : Laid s₀ root hops) :
    Keeps w K E s₀ (shortcuts hops) (fun _ cuts => AllIrreducible w root hops (Kept cuts)) := by
  refine Meets.bind (Keeps.mapM (R := fun _ (r : Nat × Nat) cs => Within r.1 r.2 cs ∧
    ∀ lo, BeginsAt w hops r.1 lo → lo < r.2 →
      ∃ first, Irreducible (FoundFrom w root hops) (FindableAt hops) (Kept cs) lo r.2 first)
    (fun _ _ _ _ _ h => h) _ ?_) ?_
  · intro r hr t ht
    obtain ⟨-, hle, hall, hroot⟩ := structural_of_runs (w := w) hr
    refine keeps_shortcutsIn_from (hh.mono ht) hall hroot fun u first hu hbegins => ?_
    refine (keeps_irreducibleFrom hE hb ((hh.mono ht).mono hu) hle).mono ?_ fun _ h => h
    intro _ cs _ _ ⟨hwithin, hirr⟩
    refine ⟨hwithin.weaken hbegins.le (Nat.le_refl _), fun lo hlo => ?_⟩
    rw [hlo.unique hbegins]
    exact hirr
  · intro t css _ _ hcss
    refine Meets.pure fun _ _ _ lo hi ⟨start, hrun, hbegins, hlt⟩ => ?_
    obtain ⟨cs, hcs, hkept⟩ := kept_flatten (b := hops.length) hcss
      (fun r hr => (structural_of_runs (w := w) hr).2.1) (runs_apart _ _ _) (start, hi)
      (mem_runs_structural hrun)
    obtain ⟨first, hirr⟩ := hcs lo hbegins hlt
    have hle := hbegins.le
    exact ⟨first, hirr.congr fun k hk hk' => (hkept k (Nat.le_trans hle hk) hk').symm⟩

end

/-! ## Steps -/

/-- The steps stand for the hops at these indices. The last one before ended after `anchor` hops. -/
inductive StepsAt (w : View ν) (hops : List (Hop (Node ν))) : Nat → List Nat → List Step → Prop where
  | nil {anchor : Nat} : StepsAt w hops anchor [] []
  | cons {anchor k : Nat} {h : Hop (Node ν)} {step : Step} {ks : List Nat} {steps : List Step}
    (hle : anchor ≤ k) (hk : hops[k]? = some h) (hstep : StepFor w (k + 1 - anchor) h step)
    (hrest : StepsAt w hops (k + 1) ks steps) : StepsAt w hops anchor (k :: ks) (step :: steps)

section
variable {root : Node ν} {hops : List (Hop (Node ν))}

omit [DecidableEq ν] in
theorem StepsAt.mem {anchor : Nat} {ks : List Nat} {steps : List Step} (h : StepsAt w hops anchor ks steps) :
    ∀ k ∈ ks, anchor ≤ k ∧ k < hops.length := by
  induction h with
  | nil => exact nofun
  | @cons anchor k _ _ _ _ hle hk _ _ ih =>
    refine List.forall_mem_cons.2 ⟨⟨hle, (List.getElem?_eq_some_iff.1 hk).1⟩, fun j hj => ?_⟩
    have := ih j hj
    omega

omit [DecidableEq ν] in
theorem StepsAt.single {m : Nat} {ks : List Nat} {steps : List Step} (h : StepsAt w hops 0 ks steps)
    (hm : m ∈ ks) (honly : ∀ k ∈ ks, k = m) :
    ∃ x step, hops[m]? = some x ∧ StepFor w (m + 1) x step ∧ steps = [step] := by
  cases h with
  | nil => cases hm
  | @cons _ k x step ks steps _ hk hstep hrest =>
    obtain rfl := honly k List.mem_cons_self
    refine ⟨x, step, hk, hstep, ?_⟩
    cases hrest with
    | nil => rfl
    | @cons _ j _ _ _ _ hle =>
      have := honly j (by simp)
      omega

variable (hE : Excuses w.host K E)
include hE

theorem keeps_stepsAt {cuts : List Shortcut} : ∀ (hs : List (Hop (Node ν))) (k anchor : Nat)
    {s₀ : Snapshot ν}, hops.drop k = hs → Laid s₀ root hops → anchor ≤ k →
    Keeps w K E s₀ (stepsFrom cuts hs k anchor) (fun _ steps => ∃ ks, StepsAt w hops anchor ks steps ∧
      ∀ j, j ∈ ks ↔ k ≤ j ∧ j < hops.length ∧ Kept cuts j)
  | [], k, anchor, s₀, hdrop, _, _ => by
    have hlen := List.drop_eq_nil_iff.1 hdrop
    refine Meets.pure fun _ _ _ => ⟨[], .nil, fun j => ?_⟩
    simp only [List.not_mem_nil, false_iff]
    omega
  | h :: hs, k, anchor, s₀, hdrop, hh, hle => by
    have hk : hops[k]? = some h := by
      rw [← List.head?_drop, hdrop]
      rfl
    have hdrop' : hops.drop (k + 1) = hs := by
      rw [← List.drop_drop, hdrop]
      rfl
    have hlt : k < hops.length := (List.getElem?_eq_some_iff.1 hk).1
    rw [stepsFrom]
    by_cases hskip : cuts.any (·.skips k) = true
    · rw [if_pos hskip]
      refine (keeps_stepsAt hs (k + 1) anchor hdrop' hh (Nat.le_succ_of_le hle)).mono ?_ fun _ h => h
      rintro _ steps - - ⟨ks, hsteps, hks⟩
      refine ⟨ks, hsteps, fun j => ?_⟩
      rw [hks]
      refine and_congr_left fun hj => ?_
      have hne : k ≠ j := fun heq => hj.2 (heq ▸ hskip)
      omega
    · rw [if_neg hskip]
      have cons : ∀ t step, s₀ ≤ t → StepFor w (k + 1 - anchor) h step → Keeps w K E t
          (do return step :: (← stepsFrom cuts hs (k + 1) (k + 1)))
          (fun _ steps => ∃ ks, StepsAt w hops anchor ks steps ∧
            ∀ j, j ∈ ks ↔ k ≤ j ∧ j < hops.length ∧ Kept cuts j) := by
        intro t step ht hstep
        refine (keeps_stepsAt hs (k + 1) (k + 1) hdrop' (hh.mono ht) (Nat.le_refl _)).bind ?_
        rintro _ steps - - ⟨ks, hsteps, hks⟩
        refine Meets.pure fun _ _ _ => ⟨k :: ks, .cons hle hk hstep hsteps, fun j => ?_⟩
        rw [List.mem_cons, hks]
        constructor
        · intro hj
          rcases hj with rfl | ⟨hkj, hj⟩
          · exact ⟨Nat.le_refl _, hlt, hskip⟩
          · exact ⟨Nat.le_of_succ_le hkj, hj⟩
        · rintro ⟨hkj, hj⟩
          rcases Nat.eq_or_lt_of_le hkj with heq | hkj
          · exact .inl heq.symm
          · exact .inr ⟨hkj, hj⟩
      dsimp only
      split
      · rename_i m index
        have hm := hh.knows (.structural m index true) (List.mem_of_getElem? hk)
        exact (keeps_fingerprint hE hm _).bind fun t f ht _ hf => cons t _ ht (.nearest hf)
      · exact cons s₀ _ (le_refl s₀) .child
      · exact cons s₀ _ (le_refl s₀) .derived

theorem keeps_shorten_irreducible (hb : ∀ i, w.host.Branches (startAt root hops i).host)
    (hh : Laid s₀ root hops) : Keeps w K E s₀ (shorten hops) (fun _ steps => ∃ ks,
      StepsAt w hops 0 ks steps ∧ AllIrreducible w root hops (· ∈ ks)) := by
  refine (keeps_allIrreducible hE hb hh).bind fun s cuts hs _ hcuts => ?_
  refine (keeps_stepsAt hE hops 0 0 rfl (hh.mono hs) (Nat.le_refl 0)).mono ?_ fun _ h => h
  intro _ steps _ _ ⟨ks, hsteps, hks⟩
  refine ⟨ks, hsteps, fun lo hi hseg => ?_⟩
  obtain ⟨first, hirr⟩ := hcuts lo hi hseg
  obtain ⟨start, hrun, -⟩ := hseg
  refine ⟨first, hirr.congr fun k _ hk => ?_⟩
  rw [hks]
  exact ⟨fun h => ⟨Nat.zero_le k, Nat.lt_of_lt_of_le hk hrun.stop, h⟩, fun h => h.2.2⟩

end

/-- If the last hop is found from the root, it is the only one that is kept. -/
theorem AllIrreducible.single {root : Node ν} {hops : List (Hop (Node ν))} {ks : List Nat}
    {steps : List Step} (h : AllIrreducible w root hops (· ∈ ks)) (hsteps : StepsAt w hops 0 ks steps)
    (hall : ∀ x ∈ hops, x.isStructural = true) (hno : ∀ m, ¬ IsSearchRoot w hops m)
    (hlast : FindableAt hops (hops.length - 1)) (hfound : FoundFrom w root hops 0 (hops.length - 1)) :
    ∃ x f, hops[hops.length - 1]? = some x ∧ Pictures w x.node.host hops.length f ∧
      steps = [.nearest f] := by
  obtain ⟨x, hx, hf⟩ := hlast
  have hlen : hops.length - 1 < hops.length := (List.getElem?_eq_some_iff.1 hx).1
  have hrun : LongestRun (StructuralAt hops) 0 hops.length 0 hops.length := by
    refine ⟨Nat.le_refl _, by omega, Nat.le_refl _, fun k _ hk => ?_, nofun, fun h => by omega⟩
    exact ⟨hops[k], List.getElem?_eq_getElem hk, hall _ (List.getElem_mem hk)⟩
  obtain ⟨first, hirr⟩ := h 0 hops.length ⟨0, hrun, .here fun _ => hno, by omega⟩
  have hfirst : first = hops.length - 1 := by
    have hupper := hirr.upper
    by_contra hne
    exact hirr.deepest _ (by omega) hlen ⟨x, hx, hf⟩ hfound
  subst hfirst
  obtain ⟨y, step, hy, hstep, rfl⟩ := hsteps.single hirr.kept fun k hk => by
    have hmem := hsteps.mem k hk
    by_contra hne
    exact hirr.skipped k (Nat.zero_le k) (by omega) hk
  obtain rfl := Option.some.inj (hx.symm.trans hy)
  obtain ⟨n, index, rfl⟩ := Hop.eq_structural_of_findable hf
  cases hstep with
  | nearest hpic =>
    rw [Nat.sub_add_cancel (by omega)] at hpic
    exact ⟨_, _, hx, hpic, rfl⟩

/-! ## Routes in a tree -/

section
variable {N : ν → Prop} {s t : Snapshot ν}

theorem Comes.tail {a b : Node ν} {h : Hop (Node ν)} {hs : List (Hop (Node ν))}
    (hcomes : Comes w s t a (h :: hs) b) :
    w.host.EntersFrom h.node.host a.host ∧ Comes w s t h.node hs b := by
  cases hcomes with
  | child he _ _ _ hrest => exact ⟨⟨_, he⟩, hrest⟩
  | call he _ hrest => exact ⟨⟨_, he⟩, hrest⟩

/-- A route stays among the nodes above its end. -/
theorem Comes.isNode (hg : w.host.Grown N) {a b : Node ν} {hops : List (Hop (Node ν))}
    (h : Comes w s t a hops b) (hN : N b.host) : N a.host ∧ ∀ x ∈ hops, N x.node.host := by
  induction hops generalizing a with
  | nil =>
    cases h
    exact ⟨hN, nofun⟩
  | cons x hs ih =>
    obtain ⟨⟨_, he⟩, hrest⟩ := h.tail
    obtain ⟨hx, hhs⟩ := ih hrest
    exact ⟨hg.above hx he.parents.to_reflTransGen, List.forall_mem_cons.2 ⟨hx, hhs⟩⟩

theorem Comes.last {a b : Node ν} {hops : List (Hop (Node ν))} (h : Comes w s t a hops b)
    {x : Hop (Node ν)} (hx : hops[hops.length - 1]? = some x) : x.node = b := by
  induction hops generalizing a with
  | nil => cases hx
  | cons y hs ih =>
    obtain ⟨-, hrest⟩ := h.tail
    cases hs with
    | nil =>
      cases hx
      cases hrest
      rfl
    | cons z hs => exact ih hrest hx

/-- In a tree, a search along a route tells from any snapshot what is found. -/
theorem exec_isFoundFrom (hg : w.host.Grown N) (hs : s.Of w (.all w.host)) {root : Node ν}
    {hops : List (Hop (Node ν))} (hh : Laid s root hops) (hroot : N root.host)
    (hhops : ∀ x ∈ hops, N x.node.host) (i : Nat) {j : Nat} {x : Hop (Node ν)} (hx : hops[j]? = some x) :
    ∃ found, ((isFoundFrom (startAt root hops i) x.node (j + 1 - i)).exec w.host s).1 = .ok found ∧
      (found = true ↔ FoundFrom w root hops i j) := by
  have hmem := List.mem_of_getElem? hx
  have hstart : N (startAt root hops i).host := startAt_mem (P := fun n => N n.host) hroot hhops i
  obtain ⟨found, hrun, hfound⟩ := Keeps.ends hs (isFoundFrom_meets (hg.searchExcuses s hstart)
    (hg.branches hstart) (hh.knows_startAt hs.sound i) (hh.knows x hmem) (hhops x hmem) (hhops x hmem)
    (j + 1 - i))
  exact ⟨found, hrun, hfound.trans (foundFrom_iff hx).symm⟩

end

/-! ## Locators -/

theorem exec_locate_eq_ok {host : Host ν} {s t : Snapshot ν} {n : Node ν} {l : Locator}
    (hrun : (locate n).exec host s = (.ok (some l), t)) :
    ∃ fuel hops u, (route (locateWithin fuel) n).exec host s = (.ok (some hops), u) ∧
      (locateAlong n hops).exec host u = (.ok (some l), t) := by
  rw [locate, exec_reach_bind, locateWithin, locateWith, exec_bind] at hrun
  refine ⟨s.size + host.size, ?_⟩
  generalize (route (locateWithin (s.size + host.size)) n).exec host s = run at hrun
  match run with
  | (.error e, u) => cases hrun
  | (.ok none, u) => cases hrun
  | (.ok (some hops), u) => exact ⟨hops, u, rfl, hrun⟩

theorem keeps_locateAlong (hE : Excuses w.host K E) {root n : Node ν} {hops : List (Hop (Node ν))}
    (hb : ∀ i, w.host.Branches (startAt root hops i).host) (hn : s₀.Knows n) (hh : Laid s₀ root hops) :
    Keeps w K E s₀ (locateAlong n hops) (fun _ l => ∀ l' ∈ l, ∃ kept,
      StepsAt w hops 0 kept l'.steps ∧ AllIrreducible w root hops (· ∈ kept)) := by
  refine (keeps_fingerprint hE hn _).bind fun s _ hs _ _ => ?_
  refine (keeps_shorten_irreducible hE hb (hh.mono hs)).bind fun _ steps _ _ hsteps => ?_
  refine Keeps.note_bind (Meets.pure fun _ _ _ l' hl' => ?_)
  cases hl'
  exact hsteps

end Op

namespace Snapshot

variable [DecidableEq ν] {host : Host ν} {root : ν} {N : ν → Prop} {s t : Snapshot ν}

/-- Nothing that is kept of a route in a locator can be left out by a farther search. A node that the root
alone is enough to find has a locator of one step. -/
theorem History.locate_irreducible (h : s.History host root) (hg : host.Grown N) {n : Node ν}
    (hn : s.Knows n) (hN : N n.host) {l : Locator} (hrun : (locate n).exec host s = (.ok (some l), t)) :
    ∃ fuel hops u kept, (route (locateWithin fuel) n).exec host s = (.ok (some hops), u) ∧
      let w : View ν := ⟨host, s.config, root⟩
      StepsAt w hops 0 kept l.steps ∧ AllIrreducible w s.root hops (· ∈ kept) ∧
      -- What is found is what a search finds, even from the snapshot at the end.
      (∀ i j x, hops[j]? = some x → ∃ found,
        ((isFoundFrom (startAt s.root hops i) x.node (j + 1 - i)).exec host t).1 = .ok found ∧
          (found = true ↔ FoundFrom w s.root hops i j)) ∧
      ((∀ x ∈ hops, x.isStructural = true) → (∀ m, ¬ IsSearchRoot w hops m) →
        FindableAt hops (hops.length - 1) → w.StandsOut root n.host hops.length →
        ∃ f, l.steps = [.nearest f] ∧ Pictures w n.host hops.length f) := by
  let w : View ν := ⟨host, s.config, root⟩
  have hE := Excuses.all w.host
  have hof : s.Of w (.all w.host) := h.of_all
  obtain ⟨fuel, hops, u, hroute, hrest⟩ := exec_locate_eq_ok hrun
  obtain ⟨hsu, hu, hisRoute⟩ := (keeps_route hE
    (fun m _ _ _ hk => keeps_locateWithin hE fuel (.inl trivial) hk.1) hn).result (le_refl s) hof hroute
  obtain ⟨-, hcomes, hknows, -⟩ := hisRoute hops rfl
  have hlaid : Laid u s.root hops := ⟨hsu.root, hknows⟩
  obtain ⟨hroot, hhops⟩ := hcomes.isNode hg hN
  rw [hsu.root] at hroot
  have hb : ∀ i, w.host.Branches (startAt s.root hops i).host :=
    fun i => hg.branches (startAt_mem (P := fun n => N n.host) hroot hhops i)
  obtain ⟨hut, ht, hsteps⟩ := (keeps_locateAlong hE hb (hn.mono hsu) hlaid).result (le_refl u) hu hrest
  obtain ⟨kept, hsteps, hirr⟩ := hsteps l rfl
  refine ⟨fuel, hops, u, kept, hroute, hsteps, hirr, fun i j x hx => ?_, fun hall hno hlast hout => ?_⟩
  · exact exec_isFoundFrom (w := w) hg ht (hlaid.mono hut) hroot hhops i hx
  · have hfound : FoundFrom w s.root hops 0 (hops.length - 1) := by
      obtain ⟨x, hx, -⟩ := hlast
      have hlen : hops.length - 1 < hops.length := (List.getElem?_eq_some_iff.1 hx).1
      rw [foundFrom_iff hx, hcomes.last hx, startAt, hof.root, Nat.sub_zero, Nat.sub_add_cancel (by omega)]
      exact hout
    obtain ⟨x, f, hx, hpictures, hsingle⟩ := hirr.single hsteps hall hno hlast hfound
    rw [hcomes.last hx] at hpictures
    exact ⟨f, hsingle, hpictures⟩

end Snapshot

/-! ## Expressions that look alike

A unit with a block and a loop, each around the same expression, and next to it a copy of the block. No
search from farther up tells the expressions apart, or the blocks. -/

inductive LookAlike where
  | file
  | unit
  | block
  | expr
  | loop
  | body
  | copy
  | inner
  deriving DecidableEq

namespace LookAlike

def tree : Host LookAlike where
  size := 8
  childCount v := .ok (match v with
    | file | unit => 2
    | block | loop | copy => 1
    | expr | body | inner => 0)
  child v i := .ok (match v with
    | file => if i = 0 then unit else copy
    | unit => if i = 0 then block else loop
    | block => expr
    | loop => body
    | _ => inner)
  parent v := .ok (match v with
    | file => none
    | unit | copy => some file
    | block | loop => some unit
    | expr => some block
    | body => some loop
    | inner => some copy)
  typeName v := match v with
    | file => "File"
    | unit => "Unit"
    | block | inner => "Block"
    | expr | body => "Expr"
    | loop => "Loop"
    | copy => "Copy"
  packedSpan v := some (match v with
    | file => ⟨1, 9⟩
    | unit | copy => ⟨2, 8⟩
    | block | loop | inner => ⟨3, 7⟩
    | expr | body => ⟨4, 6⟩)
  bounded := ⟨[file, unit, block, expr, loop, body, copy, inner], by simp, fun v _ => by cases v <;> simp⟩

def place : LookAlike → Nat
  | loop | copy => 1
  | _ => 0

theorem lists_tree {p c : LookAlike} {i : Nat} (h : tree.Lists p i c) : tree.HasParent c p ∧ i = place c := by
  obtain ⟨count, hcount, hi, hc⟩ := h
  cases p <;> simp only [tree, Except.ok.injEq] at hcount hc <;> subst hcount <;> subst hc
  case file | unit =>
    by_cases hzero : i = 0
    · rw [if_pos hzero]
      exact ⟨rfl, hzero⟩
    · rw [if_neg hzero]
      exact ⟨rfl, Nat.le_antisymm (Nat.le_of_lt_succ hi) (Nat.pos_of_ne_zero hzero)⟩
  case block | loop | copy => exact ⟨rfl, Nat.lt_one_iff.1 hi⟩
  case expr | body | inner => exact absurd hi (Nat.not_lt_zero i)

def level : LookAlike → Nat
  | file => 0
  | unit | copy => 1
  | block | loop | inner => 2
  | expr | body => 3

theorem grown_tree : tree.Grown fun _ => True where
  childCount _ _ := ⟨_, rfl⟩
  child _ _ _ _ _ _ := ⟨_, rfl⟩
  parent _ _ := ⟨_, rfl⟩
  down _ _ _ _ _ := trivial
  up _ _ _ _ := trivial
  parent_child p c _ h := by
    obtain ⟨i, hi⟩ := h
    exact (lists_tree hi).1
  once p i j c _ hi hj := (lists_tree hi).2.trans (lists_tree hj).2.symm
  circle v _ := by
    refine not_circle_of_lt level (fun v p h => ?_) v
    cases v <;> cases h <;> decide

def asked : Snapshot LookAlike := ((Request.node expr).op.exec tree (ofRoot {} tree file)).2

def exprLocator : Locator where
  result := { type := "Expr", span := ⟨4, 6⟩, depth := 3 }
  steps := [.nearest { type := "Unit", span := ⟨2, 8⟩, depth := 1 },
    .nearest { type := "Block", span := ⟨3, 7⟩, depth := 1 },
    .nearest { type := "Expr", span := ⟨4, 6⟩, depth := 1 }]

theorem locate_irreducible_tree :
    ((locate ⟨1, expr⟩).exec tree asked).1 = .ok (some exprLocator) ∧
      ∃ hops kept, let w : View LookAlike := ⟨tree, asked.config, file⟩
        StepsAt w hops 0 kept exprLocator.steps ∧ AllIrreducible w asked.root hops (· ∈ kept) := by
  have hs : asked.History tree file := (History.fresh {}).request (.node expr)
  have hhandle : asked.handle? 1 = some expr := by cbv
  have hknows : asked.Knows ⟨1, expr⟩ := hhandle
  have hl : ((locate ⟨1, expr⟩).exec tree asked).1 = .ok (some exprLocator) := by decide +kernel
  obtain ⟨_, hops, _, kept, -, hsteps, hirr, -⟩ :=
    hs.locate_irreducible grown_tree hknows trivial (exec_eq_of_result hl)
  exact ⟨hl, hops, kept, hsteps, hirr⟩

end LookAlike

end Waymark
