import Waymark.Proofs.Snapshot.Keeping
import Waymark.Proofs.View.Preorder

/-!
# What searches keep and find

Searches are judged as the operations before them. On any host, where the branch below the start is
finite, what a search finds is what is found in that branch in pre-order.
-/

namespace Waymark.Op

open Relation Snapshot

variable {ν β : Type}

/-! ## Candidates -/

def KnowsBest (s : Snapshot ν) (b : Best (Node ν)) : Prop :=
  ∀ m score, b.found = some (m, score) → s.Knows m

section
variable {s t : Snapshot ν} {b : Best (Node ν)} {n : Node ν}

theorem KnowsBest.mono (h : KnowsBest s b) (hst : s ≤ t) : KnowsBest t b :=
  fun m score hm => (h m score hm).mono hst

theorem KnowsBest.offer (h : KnowsBest s b) (hn : s.Knows n) (score : Score) :
    KnowsBest s (b.offer n score) := by
  intro m sc hm
  unfold Best.offer at hm
  cases hf : b.found with
  | none =>
    rw [hf] at hm
    cases hm
    exact hn
  | some top =>
    simp only [hf] at hm
    split at hm
    · exact h m sc (hf.trans hm)
    split at hm
    · cases hm
      exact hn
    · exact h m sc hm

theorem KnowsBest.outcome (h : KnowsBest s b) (strict : Bool) :
    ∀ m ∈ (b.outcome strict).node?, s.Knows m := by
  intro m hm
  unfold Best.outcome at hm
  cases hf : b.found with
  | none => simp [hf, Match.node?] at hm
  | some top =>
    simp only [hf] at hm
    split at hm
    · simp [Match.node?] at hm
    · cases hm
      exact h _ _ hf

end

/-! ## What is found -/

structure Asks (w : View ν) (s : Snapshot ν) (target : Target) (ignore : Option (Node ν))
    (t : View.Sought) (span : ν → Span) : Prop where
  target : SameTarget s target t
  ignored : ∀ x ∈ ignore, s.Knows x
  span : ∀ v z, w.HasSpan v z → z = span v

def Stacks (host : Host ν) : List (Node ν × Nat) → List (Branch ν × Nat) → Prop :=
  List.Forall₂ fun x b => b.1.root = x.1.host ∧ b.2 = x.2 ∧ host.Unfolds b.1

section
variable {w : View ν} {s t : Snapshot ν} {target : Target} {ignore : Option (Node ν)}
variable {x : View.Sought} {span : ν → Span} {n : Node ν} {depth : Nat}

theorem Asks.mono (h : Asks w s target ignore x span) (hst : s ≤ t) : Asks w t target ignore x span :=
  ⟨h.target.mono hst, fun n hn => (h.ignored n hn).mono hst, h.span⟩

theorem Asks.ignore_iff (h : Asks w s target ignore x span) (hs : s.Sound w.host) (hn : s.Knows n) :
    ignore.map Node.host = some n.host ↔ ignore = some n := by
  constructor
  · intro he
    obtain ⟨m, rfl, hm⟩ := Option.map_eq_some_iff.1 he
    rw [hs.eq_of_host_eq (h.ignored m rfl) hn hm]
  · rintro rfl
    rfl

theorem Stacks.push {host : Host ν} {stack : List (Node ν × Nat)} {bs : List (Branch ν × Nat)}
    (h : Stacks host stack bs) {v : ν} {cs : List (Branch ν)} (hb : host.Unfolds (.node v cs))
    {ns : List (Node ν)} (hcount : host.childCount v = .ok ns.length)
    (hns : ∀ (i : Nat) c, ns[i]? = some c → host.Lists v i c.host) (depth : Nat) :
    Stacks host (ns.map (·, depth) ++ stack) (cs.map (·, depth) ++ bs) := by
  have hlen : ns.length = cs.length := by
    cases hb with
    | node hcs _ _ =>
      rw [hcount] at hcs
      exact Except.ok.inj hcs
  refine List.rel_append (List.forall₂_iff_get.2 ⟨by simpa using hlen, fun i hi hi' => ?_⟩) h
  simp only [List.length_map] at hi hi'
  simp only [List.get_eq_getElem, List.getElem_map, true_and]
  obtain ⟨b, hget, hroot⟩ := hb.branch (hns i _ (List.getElem?_eq_getElem hi))
  rw [List.getElem?_eq_getElem hi', Option.some.injEq] at hget
  rw [hget]
  exact ⟨hroot, hb.child b (hget ▸ List.getElem_mem hi')⟩

end

variable [DecidableEq ν] {w : View ν} {K : Scope w.host} {E : Fault → Prop} {s₀ : Snapshot ν}
variable {n : Node ν} {target : Target} {strict : Bool} {ignore : Option (Node ν)}

/-- What a search from `s₀` on finds is known, and it is what is found in the branches on the stack. -/
structure Finds (w : View ν) (s₀ : Snapshot ν) (target : Target) (strict : Bool)
    (ignore : Option (Node ν)) (stack : List (Node ν × Nat)) (best : Best (Node ν)) (s : Snapshot ν)
    (m : Match (Node ν)) : Prop where
  knows : ∀ x ∈ m.node?, s.Knows x
  found : ∀ t span bs, Asks w s₀ target ignore t span → Stacks w.host stack bs →
    m.map Node.host = w.searched t span (ignore.map Node.host) strict bs (best.map Node.host)

section
variable {s t : Snapshot ν} {stack : List (Node ν × Nat)} {best best' : Best (Node ν)}
variable {m : Match (Node ν)} {depth : Nat}

theorem Finds.done (h : KnowsBest s best) :
    Finds w s₀ target strict ignore [] best s (best.outcome strict) where
  knows := h.outcome strict
  found x span bs _ hbs := by
    cases hbs
    exact (Best.outcome_map _ _ _).symm

theorem Finds.passed (h : Finds w t target strict ignore stack best s m) (hst : s₀ ≤ t)
    (hn : ∀ x span, Asks w s₀ target ignore x span →
      w.goesInto x (ignore.map Node.host) n.host = false) :
    Finds w s₀ target strict ignore ((n, depth) :: stack) best s m where
  knows := h.knows
  found x span bs ha hbs := by
    cases hbs with
    | @cons _ b _ bs hb hbs =>
      obtain ⟨⟨v, cs⟩, d⟩ := b
      cases hb.1
      rw [View.searched_passed (hn x span ha)]
      exact h.found x span bs (ha.mono hst) hbs

theorem Finds.entered {cs : List (Node ν)}
    (h : Finds w t target strict ignore (cs.map (·, depth + 1) ++ stack) best' s m) (hst : s₀ ≤ t)
    (hcount : w.host.childCount n.host = .ok cs.length)
    (hcs : ∀ (i : Nat) c, cs[i]? = some c → w.host.Lists n.host i c.host)
    (hn : ∀ x span, Asks w s₀ target ignore x span → w.goesInto x (ignore.map Node.host) n.host = true ∧
      best'.map Node.host = (best.map Node.host).offerAll (w.rated x span [(n.host, depth)])) :
    Finds w s₀ target strict ignore ((n, depth) :: stack) best s m where
  knows := h.knows
  found x span bs ha hbs := by
    cases hbs with
    | @cons _ b _ bs hb hbs =>
      obtain ⟨⟨v, bs'⟩, d⟩ := b
      obtain ⟨hv, hd, hunfolds⟩ := hb
      cases hv
      cases hd
      obtain ⟨hinto, hbest⟩ := hn x span ha
      rw [View.searched_entered hinto, ← hbest]
      exact h.found x span _ (ha.mono hst) (Stacks.push hbs hunfolds hcount hcs (depth + 1))

/-- Once two exact matches are found, the rest of the search makes no difference. -/
theorem Finds.settled (h : best'.isSettled = true)
    (hn : ∀ x span, Asks w s₀ target ignore x span → w.goesInto x (ignore.map Node.host) n.host = true ∧
      best'.map Node.host = (best.map Node.host).offerAll (w.rated x span [(n.host, depth)])) :
    Finds w s₀ target true ignore ((n, depth) :: stack) best s .ambiguous where
  knows := nofun
  found x span bs ha hbs := by
    cases hbs with
    | @cons _ b _ bs hb hbs =>
      obtain ⟨⟨v, bs'⟩, d⟩ := b
      obtain ⟨hv, hd, -⟩ := hb
      cases hv
      cases hd
      obtain ⟨hinto, hbest⟩ := hn x span ha
      rw [View.searched_entered hinto, ← hbest, View.searched_settled ((Best.isSettled_map _ _).trans h)]
      rfl

end

/-! ## Searching -/

def stackOf (ways : List (List Nat × Node ν)) : List (Node ν × Nat) := ways.map fun x => (x.2, x.1.length)

omit [DecidableEq ν] in
theorem stackOf_waysTo (path : List Nat) (cs : List (Node ν)) (ways : List (List Nat × Node ν)) :
    stackOf (waysTo path cs ++ ways) = cs.map (·, path.length + 1) ++ stackOf ways := by
  rw [stackOf, stackOf, List.map_append, waysTo, List.mapIdx_eq_zipIdx_map, List.map_map]
  congr 1
  nth_rewrite 2 [← List.zipIdx_map_fst 0 cs]
  rw [List.map_map]
  rfl

/-- Going on below a node: its children are on top of the stack. -/
theorem keeps_descend {start : ν} {seen ways : List (List Nat × Node ν)} {path : List Nat} {n : Node ν}
    (hE : ∀ m, w.host.FailsBelow n.host m → E (.host m))
    (hw : Sweeps w.host s₀ start seen ((path, n) :: ways)) {f : List (Node ν × Nat) → Op ν β}
    {R : Snapshot ν → β → Prop}
    (hf : ∀ s cs, s₀ ≤ s → w.host.childCount n.host = .ok cs.length →
      (∀ (i : Nat) c, cs[i]? = some c → w.host.Lists n.host i c.host ∧ s.Knows c) →
      Sweeps w.host s start ((path, n) :: seen) (waysTo path cs ++ ways) →
      Keeps w K E s (f (stackOf (waysTo path cs ++ ways))) R) :
    Keeps w K E s₀ (do f (← pushChildren n (path.length + 1) (← childCount n) (stackOf ways))) R := by
  have hn := hw.knows (path, n) (by simp)
  refine (keeps_childCount hE hn).bind fun s count hs _ hcount => ?_
  refine (keeps_pushChildren hE hcount _ count (Nat.le_refl _) (hn.mono hs)).bind ?_
  rintro t _ ht - ⟨cs, rfl, rfl, hcs⟩
  have hw' := (hw.mono (le_trans hs ht)).enter hcs
  rw [← stackOf_waysTo]
  exact hf t cs (le_trans hs ht) hcount hcs hw'

section
variable {U D : ν → Prop}

theorem consider_meets (hS : SpanExcuses w.host K E U D) (hn : s₀.Knows n) (hU : U n.host) (hD : D n.host)
    (hext : w.host.isExternal n.host = false) (target : Target) (depth : Nat) {best : Best (Node ν)}
    (hb : KnowsBest s₀ best) : Keeps w K E s₀ (consider target n depth best) (fun s best' =>
      KnowsBest s best' ∧ ∀ ignore x span, Asks w s₀ target ignore x span →
        best'.map Node.host = (best.map Node.host).offerAll (w.rated x span [(n.host, depth)])) := by
  refine Meets.bind (key_tells hn).sure fun s k hs hi hk => ?_
  split
  · rename_i heq
    refine (span_meets hS (hn.mono hs) hU hD).bind fun t z ht _ hz => Meets.pure fun u hu _ => ?_
    have hsu := le_trans hs (le_trans ht hu)
    refine ⟨(hb.mono hsu).offer (hn.mono hsu) _, fun ignore x span ha => ?_⟩
    obtain ⟨hkey, hspan, hdepth⟩ := ha.target.mono hs
    have hscore : x.score (span n.host) depth = ⟨z.distance target.span,
        if depth ≤ target.depth then target.depth - depth else depth - target.depth⟩ := by
      unfold View.Sought.score
      rw [← ha.span _ _ hz, hspan, hdepth, Score.mk.injEq]
      refine ⟨rfl, ?_⟩
      split <;> omega
    rw [View.rated_wanted hext ((key_eq_iff hk hkey).1 heq), hscore]
    exact Best.map_offer _ _ _ _
  · rename_i hne
    refine Meets.pure fun t ht _ => ⟨hb.mono (le_trans hs ht), fun ignore x span ha => ?_⟩
    have hmark := mt (key_eq_iff hk (ha.target.mono hs).1).2 hne
    rw [View.rated_other hmark]
    rfl

variable {start : ν} (hS : SearchExcuses w.host K E U D start)
include hS

theorem searchFrom_meets (target : Target) (strict : Bool) (ignore : Option (Node ν)) :
    ∀ (fuel : Nat) {s₀ : Snapshot ν} {seen ways : List (List Nat × Node ν)} {best : Best (Node ν)},
      Sweeps w.host s₀ start seen ways → KnowsBest s₀ best → seen.length ≤ s₀.size →
      Enough K E (seen.length + fuel) →
      Keeps w K E s₀ (searchFrom target strict ignore fuel seen.length (stackOf ways) best)
        (Finds w s₀ target strict ignore (stackOf ways) best)
  | fuel, s₀, seen, [], best, _, hb, _, _ => by
    rw [stackOf, List.map_nil, searchFrom]
    exact Meets.pure fun s hs _ => .done (hb.mono hs)
  | 0, _, _, _ :: _, _, _, _, hle, hk => Keeps.endless hk fun _ hs _ => Nat.le_trans hle (size_mono hs)
  | fuel + 1, s₀, seen, (path, n) :: ways, best, hw, hb, _, hk => by
    have hn : s₀.Knows n := hw.knows (path, n) (by simp)
    obtain ⟨hU, hD⟩ := hS.within _ (Host.below_of_way (hw.way (path, n) (by simp)))
    have hk' : Enough K E (((path, n) :: seen).length + fuel) := hk.more (by simp; omega)
    refine Keeps.boundWalk_bind (fun s type hs hlt => ?_) fun s hs hi hle => ?_
    · obtain ⟨v, p, p', hne, h, h'⟩ := (hw.mono hs).visit.twice hlt
      exact hS.twice v p p' type hne h h'
    -- The node is passed over, or the search goes on below it.
    have skip : ∀ t, s ≤ t →
        (∀ x span, Asks w s₀ target ignore x span → w.goesInto x (ignore.map Node.host) n.host = false) →
        Keeps w K E t (searchFrom target strict ignore fuel ((path, n) :: seen).length (stackOf ways) best)
          (Finds w s₀ target strict ignore (stackOf ((path, n) :: ways)) best) := by
      intro t ht hinto
      have hst := le_trans hs ht
      refine (searchFrom_meets target strict ignore fuel (hw.mono hst).pass (hb.mono hst)
        (Nat.le_trans hle (size_mono ht)) hk').mono ?_ fun _ h => h
      exact fun _ _ _ _ hm => hm.passed hst hinto
    have descend : ∀ t best', s ≤ t → KnowsBest t best' →
        (∀ x span, Asks w s₀ target ignore x span → w.goesInto x (ignore.map Node.host) n.host = true ∧
          best'.map Node.host = (best.map Node.host).offerAll (w.rated x span [(n.host, path.length)])) →
        Keeps w K E t (do
          let stack ← pushChildren n (path.length + 1) (← childCount n) (stackOf ways)
          searchFrom target strict ignore fuel ((path, n) :: seen).length stack best')
          (Finds w s₀ target strict ignore (stackOf ((path, n) :: ways)) best) := by
      intro t best' ht hb' hinto
      have hst := le_trans hs ht
      refine keeps_descend (hS.children _ · hD) (hw.mono hst) fun u cs hu hcount hcs hw' => ?_
      refine (searchFrom_meets target strict ignore fuel hw' (hb'.mono hu)
        (Nat.le_trans hle (size_mono (le_trans ht hu))) hk').mono ?_ fun _ h => h
      intro _ _ _ _ hm
      rw [stackOf_waysTo] at hm
      exact hm.entered (le_trans hst hu) hcount (fun i c hc => (hcs i c hc).1) hinto
    have hignore := fun {x span} (ha : Asks w s₀ target ignore x span) =>
      (ha.mono hs).ignore_iff hi.sound (hn.mono hs)
    split
    · rename_i hig
      refine skip s (le_refl s) fun x span ha => ?_
      simp [View.goesInto, (hignore ha).2 hig]
    rename_i hig
    refine Meets.bind (isExternal_tells (hn.mono hs)).sure ?_
    rintro t _ ht - rfl
    have hst := le_trans hs ht
    split
    · rename_i hext
      refine descend t best ht (hb.mono hst) fun x span ha => ⟨?_, ?_⟩
      · simp [View.goesInto, mt (hignore ha).1 hig, hext]
      · rw [View.rated_external hext]
        rfl
    rename_i hext
    refine (keeps_isAway (hn.mono hst) target).bind fun u away hu _ haway => ?_
    have hisAway : ∀ {x span}, Asks w s₀ target ignore x span → w.isAway x n.host = away := by
      intro x span ha
      rw [haway, ha.target.2.1]
      rfl
    split
    · rename_i hgone
      refine skip u (le_trans ht hu) fun x span ha => ?_
      simp [View.goesInto, hext, hisAway ha, hgone]
    rename_i hnear
    have hsu := le_trans hst hu
    refine (consider_meets hS.toSpanExcuses (hn.mono hsu) hU hD (eq_false_of_ne_true hext) target _
      (hb.mono hsu)).bind fun y best' hy _ hb' => ?_
    have hinto : ∀ x span, Asks w s₀ target ignore x span →
        w.goesInto x (ignore.map Node.host) n.host = true ∧
          best'.map Node.host = (best.map Node.host).offerAll (w.rated x span [(n.host, path.length)]) := by
      intro x span ha
      refine ⟨?_, hb'.2 ignore x span (ha.mono hsu)⟩
      simp [View.goesInto, mt (hignore ha).1 hig, hisAway ha, hnear]
    split
    · rename_i hsettled
      obtain ⟨rfl, hsettled⟩ := Bool.and_eq_true_iff.1 hsettled
      exact Meets.pure fun _ _ _ => .settled hsettled hinto
    · exact descend y best' (le_trans ht (le_trans hu hy)) hb'.1 hinto

/-- The search that `bestMatch` makes, in no more than `k` steps. -/
theorem bestWithin_meets {k : Nat} (hk : Enough K E k) (hn : s₀.Names n start) (target : Target)
    (strict : Bool) (ignore : Option (Node ν)) :
    Keeps w K E s₀ (searchFrom target strict ignore k 0 [(n, 0)] {})
      (Finds w s₀ target strict ignore [(n, 0)] {}) := by
  obtain ⟨hn, rfl⟩ := hn
  exact searchFrom_meets hS target strict ignore k (.first hn) nofun (Nat.zero_le _) (hk.more (by simp))

theorem bestMatch_meets (hn : s₀.Names n start) (target : Target) (strict : Bool)
    (ignore : Option (Node ν)) :
    Keeps w K E s₀ (bestMatch n target strict ignore) (Finds w s₀ target strict ignore [(n, 0)] {}) :=
  Keeps.reach_bind hS.enough fun _ hk => bestWithin_meets hS hk hn target strict ignore

/-- A search for what a fingerprint describes, and what is made of the result. -/
theorem Keeps.bestOf_bind (hn : s₀.Names n start) {f : Fingerprint} {strict : Bool}
    {ignore : Option (Node ν)} (hig : ∀ x ∈ ignore, s₀.Knows x) {span : ν → Span}
    (hspan : ∀ v z, w.HasSpan v z → z = span v) {b : Branch ν} (hb : w.host.Unfolds b)
    (hroot : b.root = start) {k : Match (Node ν) → Op ν β} {R : Snapshot ν → β → Prop}
    (hk : ∀ s m, s₀ ≤ s → m.map Node.host =
        w.searched (w.soughtOf f) span (ignore.map Node.host) strict [(b, 0)] {} →
      Keeps w K E s (k m) R) :
    Keeps w K E s₀ (do k (← bestMatch n (← targetOf f) strict ignore)) R := by
  refine (keeps_targetOf f).bind fun s target hs _ ht => ?_
  refine (bestMatch_meets hS (hn.mono hs) target strict ignore).bind fun t m hst _ hm => ?_
  exact hk t m (le_trans hs hst) (hm.found _ span [(b, 0)] ⟨ht, fun x hx => (hig x hx).mono hs, hspan⟩
    (.cons ⟨hroot.trans hn.2.symm, rfl, hb⟩ .nil))

end

section
variable (hE : Excuses w.host K E)
include hE

theorem keeps_bestWithin {k : Nat} (hk : Enough K E k) (hn : s₀.Knows n) (target : Target) (strict : Bool)
    (ignore : Option (Node ν)) :
    Keeps w K E s₀ (searchFrom target strict ignore k 0 [(n, 0)] {}) (fun s m => ∀ n ∈ m.node?, s.Knows n) :=
  (bestWithin_meets (hE.search n.host) hk ⟨hn, rfl⟩ target strict ignore).mono
    (fun _ _ _ _ hm => hm.knows) fun _ h => h

theorem keeps_bestMatch (hn : s₀.Knows n) (target : Target) (strict : Bool)
    (ignore : Option (Node ν)) :
    Keeps w K E s₀ (bestMatch n target strict ignore) (fun s m => ∀ n ∈ m.node?, s.Knows n) :=
  Keeps.reach_bind hE.enough fun _ hk => keeps_bestWithin hE hk hn target strict ignore

theorem keeps_uniqueMatch (hn : s₀.Knows n) (target : Target) (ignore : Option (Node ν)) :
    Keeps w K E s₀ (uniqueMatch n target ignore) (fun s m => ∀ n ∈ m, s.Knows n) :=
  (keeps_bestMatch hE hn target true ignore).bind fun _ _ _ _ hm =>
    Meets.pure fun _ ht _ m hmem => (hm m hmem).mono ht

theorem keeps_isAmbiguous (hn : s₀.Knows n) (f : Fingerprint) (ignore : Option (Node ν)) :
    Keeps w K E s₀ (isAmbiguous n f ignore) (fun _ _ => True) :=
  (keeps_targetOf f).bind fun _ _ hs _ _ => (keeps_uniqueMatch hE (hn.mono hs) _ ignore).bind
    fun _ _ _ _ _ => Meets.pure fun _ _ _ => trivial

end

end Waymark.Op
