import Waymark.Proofs.Shift.Locating
import Waymark.Proofs.Snapshot.Pruning
import Waymark.Proofs.View.RoundTrip

/-!
# The nodes at a position

A walk for the nodes at a position leaves out what is below a node that has its own span elsewhere. Where
spans are nested nothing is lost by this, and the listing has all visible nodes whose span holds the
position: the deepest first, those of one depth in pre-order.
-/

namespace Waymark

open Relation

variable {ν α : Type}

/-! ## Pre-order -/

namespace Host

variable (host : Host ν)

/-- From `a` on, `v` comes before `u` in pre-order: the way to it ends on the way to `u`, or turns off to an
earlier child. -/
def Precedes (a v u : ν) : Prop := ∃ q r, host.Way a q v ∧ host.Way a r u ∧ q.reverse < r.reverse

variable {host}

theorem Precedes.child {a c v u : ν} {i : Nat} (hc : host.Lists a i c) (h : host.Precedes c v u) :
    host.Precedes a v u := by
  obtain ⟨q, r, hq, hr, hlt⟩ := h
  refine ⟨q ++ [i], r ++ [i], .cons hc hq, .cons hc hr, ?_⟩
  rw [List.reverse_append, List.reverse_append]
  exact List.cons_lt_cons_self.2 hlt

theorem precedes_of_lt {a c d v u : ν} {i j : Nat} (hc : host.Lists a i c) (hd : host.Lists a j d)
    (hij : i < j) {q r : List Nat} (hv : host.Way c q v) (hu : host.Way d r u) : host.Precedes a v u := by
  refine ⟨q ++ [i], r ++ [j], .cons hc hv, .cons hd hu, ?_⟩
  rw [List.reverse_append, List.reverse_append]
  exact List.Lex.rel hij

theorem Unfolds.pairwise_order {opens : ν → Bool} {b : Branch ν} (h : host.Unfolds b) : ∀ depth : Nat,
    (b.order opens depth).Pairwise fun x y => host.Precedes b.root x.1 y.1 := by
  induction h with
  | @node v cs hcount hchild hcs ih =>
    intro depth
    have hunfolds : host.Unfolds (.node v cs) := .node hcount hchild hcs
    rw [Branch.order]
    split
    · rw [Branch.orderAll_eq, List.pairwise_cons, List.pairwise_flatMap]
      refine ⟨?_, ?_, ?_⟩
      · -- The node itself comes first.
        intro x hx
        obtain ⟨b, hb, hx⟩ := List.mem_flatMap.1 hx
        obtain ⟨i, hi⟩ := List.mem_iff_getElem?.1 hb
        obtain ⟨path, hway, -⟩ := (hcs b hb).way_of_mem_order hx
        refine ⟨[], path ++ [i], .here, .cons (hunfolds.lists hi) hway, ?_⟩
        rw [List.reverse_append]
        exact List.Lex.nil
      · intro b hb
        obtain ⟨i, hi⟩ := List.mem_iff_getElem?.1 hb
        exact (ih b hb (depth + 1)).imp fun hxy => hxy.child (hunfolds.lists hi)
      · rw [List.pairwise_iff_getElem]
        intro i j hi hj hij x hx y hy
        obtain ⟨q, hq, -⟩ := (hcs _ (List.getElem_mem hi)).way_of_mem_order hx
        obtain ⟨r, hr, -⟩ := (hcs _ (List.getElem_mem hj)).way_of_mem_order hy
        exact precedes_of_lt (hunfolds.lists (List.getElem?_eq_getElem hi))
          (hunfolds.lists (List.getElem?_eq_getElem hj)) hij hq hr
    · exact .nil

theorem Grown.length_lt_of_below {N : ν → Prop} (hg : host.Grown N) {a v u : ν} (ha : N a)
    {q r : List Nat} (hv : host.Way a q v) (hu : host.Way a r u) (h : TransGen host.IsChild v u) :
    q.length < r.length := by
  have longer : ∃ r', host.Way a r' u ∧ q.length < r'.length := by
    clear hu
    induction h with
    | single hc =>
      obtain ⟨i, hi⟩ := hc
      exact ⟨i :: q, .down hv hi, by simp⟩
    | tail _ hc ih =>
      obtain ⟨r', hr', hlt⟩ := ih
      obtain ⟨i, hi⟩ := hc
      exact ⟨i :: r', .down hr' hi, by simp; omega⟩
  obtain ⟨r', hr', hlt⟩ := longer
  rwa [hg.way_unique ha hu hr']

variable (host) in
/-- From `a` on, `v` is deeper than `u`, or as deep and before it in pre-order. -/
def Inner (a v u : ν) : Prop :=
  ∃ q r, host.Way a q v ∧ host.Way a r u ∧
    (r.length < q.length ∨ q.length = r.length ∧ q.reverse < r.reverse)

section
variable {N : ν → Prop} (hg : host.Grown N) {a v u : ν} (ha : N a)
include hg ha

theorem Grown.ne_of_inner (h : host.Inner a v u) : v ≠ u := by
  intro he
  subst he
  obtain ⟨q, r, hq, hr, hlt⟩ := h
  obtain rfl := hg.way_unique ha hq hr
  rcases hlt with hlt | ⟨-, hlt⟩
  · exact Nat.lt_irrefl _ hlt
  · exact List.lt_irrefl _ hlt

/-- A node does not come before what is below it. -/
theorem Grown.not_below_of_inner (h : host.Inner a v u) : ¬ TransGen host.IsChild v u := by
  intro hbelow
  obtain ⟨q, r, hq, hr, hlt⟩ := h
  have := hg.length_lt_of_below ha hq hr hbelow
  omega

end

end Host

/-! ## Innermost first -/

/-- Sorting brings deeper ones to the front and leaves the order of all others. -/
theorem Op.pairwise_innermostFirst {R : α × Nat → α × Nat → Prop} : ∀ {hits : List (α × Nat)},
    hits.Pairwise R → (innermostFirst hits).Pairwise fun a b => b.2 < a.2 ∨ a.2 = b.2 ∧ R a b
  | [], _ => by
    rw [innermostFirst, List.mergeSort_nil]
    exact .nil
  | a :: hits, h => by
    obtain ⟨hfirst, hrest⟩ := List.pairwise_cons.1 h
    have htrans : ∀ x y z : α × Nat, decide (y.2 ≤ x.2) = true → decide (z.2 ≤ y.2) = true →
        decide (z.2 ≤ x.2) = true := by
      intro x y z hxy hyz
      simp only [decide_eq_true_eq] at *
      omega
    have htotal : ∀ x y : α × Nat, (decide (y.2 ≤ x.2) || decide (x.2 ≤ y.2)) = true := by
      intro x y
      simp only [Bool.or_eq_true, decide_eq_true_eq]
      omega
    have hsorted : (innermostFirst (a :: hits)).Pairwise fun x y => decide (y.2 ≤ x.2) = true :=
      List.pairwise_mergeSort htrans htotal _
    have ih := pairwise_innermostFirst hrest
    obtain ⟨front, back, hall, hother, hdeeper⟩ := List.mergeSort_cons htrans htotal a hits
    unfold innermostFirst at hsorted ih ⊢
    rw [hother, List.pairwise_append] at ih
    rw [hall] at hsorted ⊢
    rw [List.pairwise_append, List.pairwise_cons] at hsorted ⊢
    obtain ⟨hfront, hback, hcross⟩ := ih
    refine ⟨hfront, ⟨fun x hx => ?_, hback⟩, ?_⟩
    · -- What comes after `a` is not deeper, and as deep only if it came after it before.
      have hle := of_decide_eq_true (hsorted.2.1.1 x hx)
      have hmem : x ∈ hits := by
        rw [← (List.mergeSort_perm hits fun a b => decide (b.2 ≤ a.2)).mem_iff, hother]
        exact List.mem_append_right _ hx
      rcases Nat.lt_or_eq_of_le hle with hlt | heq
      · exact .inl hlt
      · exact .inr ⟨heq.symm, hfirst x hmem⟩
    · intro x hx y hy
      rcases List.mem_cons.1 hy with rfl | hy
      · have hnot := hdeeper x hx
        simp only [Bool.not_eq_true', decide_eq_false_iff_not] at hnot
        exact .inl (by omega)
      · exact hcross x hx y hy

/-- What is kept of a branch, the innermost first. -/
theorem Host.Unfolds.pairwise_inner {host : Host ν} {N : ν → Prop} (hg : host.Grown N) {opens : ν → Bool}
    {b : Branch ν} (hb : host.Unfolds b) (hroot : N b.root) (f : ν × Nat → Bool) :
    (Op.innermostFirst ((b.order opens 0).filter f)).Pairwise fun x y => host.Inner b.root x.1 y.1 := by
  have depth : ∀ x ∈ Op.innermostFirst ((b.order opens 0).filter f),
      ∃ path, host.Way b.root path x.1 ∧ x.2 = path.length := by
    intro x hx
    have hmem := (List.mem_filter.1 ((List.mergeSort_perm _ _).mem_iff.1 hx)).1
    obtain ⟨path, hway, hlen⟩ := hb.way_of_mem_order hmem
    exact ⟨path, hway, hlen.trans (Nat.zero_add _)⟩
  refine (Op.pairwise_innermostFirst ((hb.pairwise_order 0).filter f)).imp_of_mem ?_
  intro x y hx hy hxy
  obtain ⟨q, hq, hqlen⟩ := depth x hx
  obtain ⟨r, hr, hrlen⟩ := depth y hy
  refine ⟨q, r, hq, hr, ?_⟩
  rw [← hqlen, ← hrlen]
  rcases hxy with hlt | ⟨heq, q', r', hq', hr', hlt⟩
  · exact .inl hlt
  · obtain rfl := hg.way_unique hroot hq hq'
    obtain rfl := hg.way_unique hroot hr hr'
    exact .inr ⟨heq, hlt⟩

/-! ## What the walk finds -/

namespace View

variable (w : View ν) (span : ν → Span) (locator : ν → Option Locator)

def holds (p : Position) (v : ν) : Bool := (span v).contains p && w.host.isVisible v

def entry (v : ν) (l : Locator) : Entry ν :=
  { type := w.host.typeName v, label := w.host.shownLabel v, span := span v, locator := l, node := v }

variable {w span locator} {N : ν → Prop} {p : Position}

/-- Where spans are nested, the position is in no span below a node that has its own span elsewhere. -/
theorem holds_of_isElsewhere (hg : w.host.Grown N) (hnest : w.host.Nested w.config.positions N)
    (hp : p ≠ 0) {x v : ν} (hx : N x) (h : w.isElsewhere p x = true) (hv : w.host.Below x v)
    (hspan : w.HasSpan v (span v)) : w.holds span p v = false := by
  unfold isElsewhere at h
  simp only [Bool.and_eq_true, Bool.not_eq_true'] at h
  obtain ⟨⟨hm, hnot⟩, hext⟩ := h
  have hout : (span v).contains p = false := by
    rw [← Bool.not_eq_true]
    intro hin
    simp only [Span.contains, Bool.and_eq_true, decide_eq_true_eq] at hin
    by_cases hs : (span v).isMeaningful = true
    · obtain ⟨hstart, hstop⟩ := HasSpan.within hg hnest hx hv hspan hs hext hm
      have hinside : (w.rawSpan x).contains p = true := by
        simp only [Span.contains, Bool.and_eq_true, decide_eq_true_eq]
        exact ⟨UInt32.le_trans hstart hin.1, UInt32.le_trans hin.2 hstop⟩
      rw [hnot] at hinside
      cases hinside
    · -- A span that says nothing holds no position but the first one.
      simp only [Span.isMeaningful, Bool.or_eq_true, bne_iff_ne, ne_eq, not_or, not_not] at hs
      rw [hs.2] at hin
      exact hp (UInt32.le_antisymm hin.2 (UInt32.zero_le))
  rw [holds, hout]
  rfl

/-- Going into all nodes brings no more hits. -/
theorem filter_order (hg : w.host.Grown N) (hnest : w.host.Nested w.config.positions N) (hp : p ≠ 0)
    {b : Branch ν} (hb : w.host.Unfolds b) :
    ∀ depth : Nat, N b.root → (∀ v, w.host.Below b.root v → w.HasSpan v (span v)) →
      (b.order (fun v => !w.isElsewhere p v) depth).filter (fun x => w.holds span p x.1) =
        (b.order (fun _ => true) depth).filter fun x => w.holds span p x.1 := by
  induction hb with
  | @node v cs hcount hchild hcs ih =>
    intro depth hv hspan
    have hunfolds : w.host.Unfolds (.node v cs) := .node hcount hchild hcs
    cases helse : w.isElsewhere p v with
    | true =>
      have hnone : ∀ x ∈ (Branch.node v cs).order (fun _ => true) depth, ¬ w.holds span p x.1 = true := by
        intro x hx
        obtain ⟨path, hway, -⟩ := hunfolds.way_of_mem_order hx
        have hbelow := Host.below_of_way hway
        rw [holds_of_isElsewhere hg hnest hp hv helse hbelow (hspan x.1 hbelow)]
        exact Bool.false_ne_true
      rw [List.filter_eq_nil_iff.2 hnone, Branch.order, helse]
      rfl
    | false =>
      rw [Branch.order, Branch.order, helse, Branch.orderAll_eq, Branch.orderAll_eq]
      simp only [Bool.not_false, if_true, List.filter_cons, List.filter_flatMap]
      have hbelow : cs.flatMap (fun b => (b.order (fun v => !w.isElsewhere p v) (depth + 1)).filter
            fun x => w.holds span p x.1) =
          cs.flatMap fun b => (b.order (fun _ => true) (depth + 1)).filter fun x => w.holds span p x.1 := by
        apply List.flatMap_congr
        intro b hb
        obtain ⟨i, hi⟩ := List.mem_iff_getElem?.1 hb
        have hl := hunfolds.lists hi
        exact ih b hb (depth + 1) (hg.down v i _ hv hl) fun u hu => hspan u (.head ⟨i, hl⟩ hu)
      rw [hbelow]

/-- The children of a node that unfolds come on top of the stack. -/
theorem pushChildren_of_unfolds {v : ν} {cs : List (Branch ν)} (h : w.host.Unfolds (.node v cs))
    (depth : Nat) : ∀ (k : Nat) (stack : List (ν × Nat)), k ≤ cs.length →
      w.pushChildren v depth k stack = .ok ((cs.take k).map (fun b => (b.root, depth)) ++ stack)
  | 0, stack, _ => rfl
  | k + 1, stack, hk => by
    have hget : cs[k]? = some cs[k] := List.getElem?_eq_getElem hk
    rw [pushChildren, child_eq_ok.2 (h.lists hget)]
    show w.pushChildren v depth k _ = _
    rw [pushChildren_of_unfolds h depth k _ (Nat.le_of_succ_le hk), List.take_add_one, hget,
      List.map_append, List.append_assoc]
    rfl

theorem hitsFrom_passed {fuel depth : Nat} {v : ν} {stack : List (ν × Nat)}
    (h : w.isElsewhere p v = true) :
    w.hitsFrom p (fuel + 1) ((v, depth) :: stack) = w.hitsFrom p fuel stack := by
  rw [hitsFrom, if_pos h]

theorem hitsFrom_entered {fuel depth : Nat} {v : ν} {cs : List (Branch ν)} {stack more : List (ν × Nat)}
    (h : w.isElsewhere p v = false) (hb : w.host.Unfolds (.node v cs)) (hs : w.span v = .ok (span v))
    (hmore : w.hitsFrom p fuel (cs.map (fun b => (b.root, depth + 1)) ++ stack) = .ok more) :
    w.hitsFrom p (fuel + 1) ((v, depth) :: stack) =
      .ok (if w.holds span p v then (v, depth) :: more else more) := by
  have hcount : w.childCount v = .ok cs.length := by
    cases hb with
    | node hcount _ _ => exact told_eq_ok.2 hcount
  rw [hitsFrom, h, if_neg Bool.false_ne_true, isHit, hs, hcount]
  show (w.pushChildren v (depth + 1) cs.length stack >>= _) = _
  rw [pushChildren_of_unfolds hb (depth + 1) cs.length stack (Nat.le_refl _), List.take_length]
  show (w.hitsFrom p fuel _ >>= _) = _
  rw [hmore]
  rfl

theorem hitsFrom_eq (ht : w.host.RootedForest w.root N)
    (hspan : ∀ v, w.host.Below w.root v → w.span v = .ok (span v)) :
    ∀ (fuel : Nat) {bs : List (Branch ν × Nat)} {seen : List ν},
      (∀ b ∈ bs, w.host.Unfolds b.1 ∧ w.host.Below w.root b.1.root) →
      (ofForest ht).Sweep w.root seen (bs.map fun b => b.1.root) → w.host.size < seen.length + fuel →
      w.hitsFrom p fuel (bs.map fun b => (b.1.root, b.2)) =
        .ok ((bs.flatMap fun b => b.1.order (fun v => !w.isElsewhere p v) b.2).filter
          fun x => w.holds span p x.1)
  | fuel, [], _, _, _, _ => by
    rw [List.map_nil, hitsFrom]
    rfl
  | 0, b :: bs, seen, _, hsweep, hlt => by
    have := hsweep.skip.length_le.1
    simp only [List.length_cons] at this
    exact absurd hlt (Nat.not_lt_of_le (Nat.le_of_succ_le_succ this))
  | fuel + 1, (.node v cs, depth) :: bs, seen, hbs, hsweep, hlt => by
    obtain ⟨hunfolds, hbelow⟩ := hbs (.node v cs, depth) (by simp)
    have hrest : ∀ b ∈ bs, w.host.Unfolds b.1 ∧ w.host.Below w.root b.1.root :=
      fun b hb => hbs b (by simp [hb])
    have hlt' : w.host.size < (v :: seen).length + fuel := by
      simp only [List.length_cons]
      omega
    show w.hitsFrom p (fuel + 1) ((v, depth) :: bs.map fun b => (b.1.root, b.2)) = _
    rw [List.flatMap_cons, Branch.order]
    cases helse : w.isElsewhere p v with
    | true =>
      rw [hitsFrom_passed helse]
      exact hitsFrom_eq ht hspan fuel hrest hsweep.skip hlt'
    | false =>
      -- The children go before what is still on the stack.
      have hnext : ∀ b ∈ cs.map (fun c => (c, depth + 1)) ++ bs,
          w.host.Unfolds b.1 ∧ w.host.Below w.root b.1.root := by
        intro b hb
        rcases List.mem_append.1 hb with hb | hb
        · obtain ⟨c, hc, rfl⟩ := List.mem_map.1 hb
          obtain ⟨i, hi⟩ := List.mem_iff_getElem?.1 hc
          exact ⟨hunfolds.child c hc, hbelow.tail ⟨i, hunfolds.lists hi⟩⟩
        · exact hrest b hb
      have hlists : ∀ i c, (cs.map Branch.root)[i]? = some c → w.host.Lists v i c := by
        intro i c hc
        rw [List.getElem?_map] at hc
        obtain ⟨b, hb, rfl⟩ := Option.map_eq_some_iff.1 hc
        exact hunfolds.lists hb
      have hdescend : (ofForest ht).Sweep w.root (v :: seen)
          ((cs.map (fun c => (c, depth + 1)) ++ bs).map fun b => b.1.root) := by
        rw [List.map_append, List.map_map]
        exact hsweep.descend ht.isNode_root hlists
      have hmore := hitsFrom_eq ht hspan fuel hnext hdescend hlt'
      rw [List.map_append, List.map_map, List.flatMap_append, List.flatMap_map] at hmore
      rw [hitsFrom_entered helse hunfolds (hspan v hbelow) hmore, Branch.orderAll_eq]
      simp only [Bool.not_false, if_true, List.cons_append, List.filter_cons]

/-! ## What is listed -/

variable (w span locator) in
def report (v : ν) : Entry ν ⊕ Diagnostic :=
  match locator v with
  | some l => .inl (w.entry span v l)
  | none => .inr (.unlocatableNode (span v))

theorem filterMap_left (hits : List ν) : (hits.map (w.report span locator)).filterMap Sum.getLeft? =
    hits.filterMap fun v => (locator v).map (w.entry span v) := by
  rw [List.filterMap_map]
  congr 1
  funext v
  rw [Function.comp_apply, report]
  cases locator v <;> rfl

theorem filterMap_right (hits : List ν) : (hits.map (w.report span locator)).filterMap Sum.getRight? =
    (hits.filter fun v => (locator v).isNone).map fun v => .unlocatableNode (span v) := by
  induction hits with
  | nil => rfl
  | cons v hits ih =>
    rw [List.map_cons, List.filterMap_cons, List.filter_cons, ih, report]
    cases locator v <;> rfl

variable [DecidableEq ν]

theorem listed_eq {v : ν} (hs : w.span v = .ok (span v)) (hl : w.locate v = .ok (locator v)) :
    w.listed v = .ok (w.report span locator v) := by
  rw [listed, hs]
  show (w.locate v >>= _) = _
  rw [hl, report]
  cases locator v <;> rfl

variable (w span p) in
def hitsOf (b : Branch ν) : List ν :=
  (Op.innermostFirst ((b.order (fun _ => true) 0).filter fun x => w.holds span p x.1)).map Prod.fst

omit [DecidableEq ν] in
theorem mem_hitsOf {b : Branch ν} (hb : w.host.Unfolds b) {v : ν} :
    v ∈ w.hitsOf span p b ↔ w.host.Below b.root v ∧ w.holds span p v = true := by
  unfold hitsOf
  rw [List.mem_map]
  constructor
  · intro h
    obtain ⟨x, hx, rfl⟩ := h
    obtain ⟨hmem, hholds⟩ := List.mem_filter.1 ((List.mergeSort_perm _ _).mem_iff.1 hx)
    obtain ⟨path, hway, -⟩ := hb.way_of_mem_order hmem
    exact ⟨Host.below_of_way hway, hholds⟩
  · intro h
    obtain ⟨path, hway⟩ := h.1.way
    have hmem : (v, 0 + path.length) ∈ b.order (fun _ => true) 0 := hb.mem_order 0 hway fun _ _ _ => rfl
    exact ⟨_, (List.mergeSort_perm _ _).mem_iff.2 (List.mem_filter.2 ⟨hmem, h.2⟩), rfl⟩

/-- The listing, said with no walk. -/
theorem nodesAt_eq (ht : w.host.RootedForest w.root N) (hnest : w.host.Nested w.config.positions N) (hp : p ≠ 0)
    (hspan : ∀ v, w.host.Below w.root v → w.span v = .ok (span v) ∧ w.HasSpan v (span v))
    (hlocate : ∀ v, w.host.Below w.root v → w.locate v = .ok (locator v)) {b : Branch ν}
    (hroot : b.root = w.root) (hb : w.host.Unfolds b) :
    w.nodesAt p = .ok {
      nodes := (w.hitsOf span p b).filterMap fun v => (locator v).map (w.entry span v)
      diagnostics := ((w.hitsOf span p b).filter fun v => (locator v).isNone).map fun v =>
        .unlocatableNode (span v) } := by
  have hwalk : w.hitsFrom p w.reach ([(b, 0)].map fun b => (b.1.root, b.2)) =
      .ok (([(b, 0)].flatMap fun b => b.1.order (fun v => !w.isElsewhere p v) b.2).filter
        fun x => w.holds span p x.1) := by
    have hfirst : (ofForest ht).Sweep w.root [] [b.root] := by
      rw [hroot]
      exact Rebuild.Sweep.first
    refine hitsFrom_eq ht (fun v hv => (hspan v hv).1) w.reach ?_ hfirst ?_
    · intro x hx
      obtain rfl := List.mem_singleton.1 hx
      exact ⟨hb, hroot ▸ .refl⟩
    · simp [reach]
  rw [List.map_singleton, hroot, List.flatMap_singleton, filter_order ht.grown hnest hp hb 0
    (hroot ▸ ht.isNode_root) fun v hv => (hspan v (hroot ▸ hv)).2] at hwalk
  have hentries : (Op.innermostFirst ((b.order (fun _ => true) 0).filter fun x => w.holds span p x.1)).mapM
      (fun h => w.listed h.1) = .ok ((w.hitsOf span p b).map (w.report span locator)) := by
    unfold hitsOf
    rw [List.map_map]
    apply mapM_eq
    intro x hx
    have hbelow := ((mem_hitsOf hb).1 (List.mem_map_of_mem hx)).1
    rw [hroot] at hbelow
    exact listed_eq (hspan x.1 hbelow).1 (hlocate x.1 hbelow)
  rw [nodesAt, hwalk]
  show ((Op.innermostFirst _).mapM (fun h => w.listed h.1) >>= _) = Except.ok (_ : Listing ν)
  rw [hentries, ← filterMap_left, ← filterMap_right]
  rfl

end View

/-! ## In every snapshot -/

open Op Snapshot

section
variable [DecidableEq ν] {B : Rebuild ν ν} {t : Snapshot ν}

theorem fits_locatorOf {v : ν} (hv : B.IsNode v) :
    B.Fits t (locatorOf (B.place v)) (B.view.locate v) (fun _ a b => a = b) :=
  (Rebuild.fits_intern hv).sure_bind fun _ _ _ _ hm => Rebuild.fits_locate hm

end

structure ListedNode.IsOf (s : Snapshot ν) (host : Host ν) (span : ν → Span) (locator : ν → Option Locator)
    (v : ν) (e : ListedNode ν) : Prop where
  node : s.Names e.node v
  type : e.type = host.typeName v
  label : e.label = host.shownLabel v
  span : e.span = span v
  locator : locator v = some e.locator

theorem ListedNode.isOf_of_entries [DecidableEq ν] {w : View ν} {N : ν → Prop} {ht : w.host.RootedForest w.root N}
    {s : Snapshot ν} {span : ν → Span} {locator : ν → Option Locator} : ∀ {hits : List ν}
    {es : List (ListedNode ν)},
    List.Forall₂ ((View.ofForest ht).SameEntry s) es
      (hits.filterMap fun v => (locator v).map (w.entry span v)) →
    List.Forall₂ (IsOf s w.host span locator) (hits.filter fun v => (locator v).isSome) es
  | [], _, h => by
    cases h
    exact .nil
  | v :: hits, es, h => by
    rw [List.filterMap_cons] at h
    rw [List.filter_cons]
    cases hl : locator v with
    | none =>
      rw [hl] at h
      exact isOf_of_entries h
    | some l =>
      rw [hl] at h
      cases h with
      | cons he hes =>
        refine .cons ⟨he.node.1, he.type, he.label, he.span, ?_⟩ (isOf_of_entries hes)
        rw [hl, he.locator]
        rfl

namespace Snapshot

variable [DecidableEq ν] {host : Host ν} {root : ν} {N : ν → Prop} {s : Snapshot ν}

/-- On a rooted forest with nested spans, a listing at a position other than the first one has all nodes from
the root down that are visible and whose span holds the position, each once, the deepest first and those of
one depth in pre-order. Those with a locator are entries, with this locator; each of the others has a report. -/
theorem History.nodesAt_exact (h : s.History host root) (ht : host.RootedForest root N)
    (hnest : host.Nested s.config.positions N) (ho : ∀ p v, N p → N v → ∃ o, host.origin p v = .ok o)
    {p : Position} (hp : p ≠ 0) : ∃ (span : ν → Span) (locator : ν → Option Locator) (hits : List ν),
      (∀ v, host.Below root v → ((spanOf v).exec host s).1 = .ok (span v) ∧
        ((locatorOf v).exec host s).1 = .ok (locator v)) ∧
      (∀ v, v ∈ hits ↔ host.Below root v ∧ (span v).contains p = true ∧ host.isVisible v = true) ∧
      hits.Nodup ∧
      hits.Pairwise (fun v u => host.Inner root v u ∧ ¬ TransGen host.IsChild v u) ∧
      ∃ listing t, (nodesAt p).exec host s = (.ok listing, t) ∧
        List.Forall₂ (ListedNode.IsOf t host span locator) (hits.filter fun v => (locator v).isSome)
          listing.nodes ∧
        listing.diagnostics =
          (hits.filter fun v => (locator v).isNone).map fun v => .unlocatableNode (span v) := by
  let w : View ν := ⟨host, s.config, root⟩
  let B := View.ofForest (w := w) ht
  have hof : s.Of B.copy B.Kept := Rebuild.of_history h rfl
  have hsroot : s.root.host = root := hof.root
  have hbranches : host.Branches root := ht.grown.branches ht.isNode_root
  obtain ⟨b, hroot, hb⟩ := hbranches.exists_branch
  obtain ⟨span, hrun, -⟩ := h.exists_span hof.sound.root (hsroot ▸ hbranches)
  rw [hsroot] at hrun
  have hN : ∀ v, host.Below root v → N v := fun v hv => ht.grown.below ht.isNode_root hv
  have hspan : ∀ v, host.Below root v → w.span v = .ok (span v) ∧ w.HasSpan v (span v) := by
    intro v hv
    have heq := ((fits_spanOf (B := B) (hN v hv)).agree hof).eq
    exact ⟨heq.symm.trans (hrun v hv).1, (hrun v hv).2⟩
  have hlocator : ∀ v, ∃ l, host.Below root v → w.locate v = .ok l := by
    intro v
    by_cases hv : host.Below root v
    · obtain ⟨l, hl⟩ := View.locate_ends (w := w) ht ho (hN v hv)
      exact ⟨l, fun _ => hl⟩
    · exact ⟨none, fun hv' => absurd hv' hv⟩
  choose locator hlocator using hlocator
  have hpairs : (w.hitsOf span p b).Pairwise fun v u => host.Inner root v u := by
    rw [← hroot]
    exact List.pairwise_map.2 (hb.pairwise_inner ht.grown (hroot ▸ ht.isNode_root) _)
  refine ⟨span, locator, w.hitsOf span p b, ?_, ?_, ?_, ?_, ?_⟩
  · intro v hv
    exact ⟨(hrun v hv).1, ((fits_locatorOf (B := B) (hN v hv)).agree hof).eq.trans (hlocator v hv)⟩
  · intro v
    rw [View.mem_hitsOf hb, hroot, View.holds, Bool.and_eq_true]
  · exact hpairs.imp fun hvu => ht.grown.ne_of_inner ht.isNode_root hvu
  · exact hpairs.imp fun hvu => ⟨hvu, ht.grown.not_below_of_inner ht.isNode_root hvu⟩
  · have hagree := (Rebuild.fits_nodesAt (B := B) p).agree hof
    have hview : B.view.nodesAt p = _ := View.nodesAt_eq (w := w) ht hnest hp hspan hlocator hroot hb
    obtain ⟨listing, hlisting, hsame⟩ := hagree.exists_ok hview
    exact ⟨listing, _, exec_eq_of_result hlisting, ListedNode.isOf_of_entries hsame.nodes, hsame.diagnostics⟩

end Snapshot

namespace PairNode

theorem rootedForest_tree : tree.RootedForest block fun _ => True where
  grown := grown_tree
  closed := ⟨by simp, by simp, by simp, by simp⟩
  isNode_root := trivial
  arguments v _ := by
    refine ⟨v, fun m hm => ?_⟩
    obtain ⟨u, x, o, -, he, -⟩ := hm
    cases he with
    | call _ ho => cases ho
    | proxy _ _ _ _ ho => cases ho

/-- At a position in a node whose child has no span of its own. -/
theorem nodesAt_exact_tree : ((spanOf leaf).exec tree seen).1 = .ok ⟨6, 8⟩ ∧
    ∃ hits : List PairNode, leaf ∈ hits ∧ left ∉ hits ∧
      hits.Pairwise (fun v u => tree.Inner block v u ∧ ¬ TransGen tree.IsChild v u) ∧
      ∃ listing t, (nodesAt 7).exec tree seen = (.ok listing, t) ∧
        listing.nodes.length + listing.diagnostics.length = hits.length := by
  have hs : seen.History tree block := ((History.fresh {}).request (.targetOf drifted)).request (.node left)
  have hconfig : seen.config = {} := by cbv
  have hbud : ((spanOf leaf).exec tree seen).1 = .ok ⟨6, 8⟩ := by decide +kernel
  have hleft : ((spanOf left).exec tree seen).1 = .ok ⟨2, 4⟩ := by decide +kernel
  have hnested : tree.Nested seen.config.positions fun _ => True := hconfig ▸ nested_tree
  have right_stem : tree.IsChild block right := ⟨1, 2, rfl, by decide, rfl⟩
  have bud_right : tree.IsChild right leaf := ⟨0, 1, rfl, by decide, rfl⟩
  have left_stem : tree.IsChild block left := ⟨0, 2, rfl, by decide, rfl⟩
  obtain ⟨span, locator, hits, htold, hmem, -, hpairs, listing, t, hrun, hnodes, hdiagnostics⟩ :=
    hs.nodesAt_exact rootedForest_tree hnested (fun _ _ _ _ => ⟨none, rfl⟩) (by decide : (7 : Position) ≠ 0)
  have hspan : span leaf = ⟨6, 8⟩ ∧ span left = ⟨2, 4⟩ := by
    have hb := (htold leaf (.tail (.single right_stem) bud_right)).1
    have hl := (htold left (.single left_stem)).1
    rw [hbud] at hb
    rw [hleft] at hl
    exact ⟨(Except.ok.inj hb).symm, (Except.ok.inj hl).symm⟩
  refine ⟨hbud, hits, ?_, ?_, hpairs, listing, t, hrun, ?_⟩
  · refine (hmem leaf).2 ⟨.tail (.single right_stem) bud_right, ?_, rfl⟩
    rw [hspan.1]
    decide
  · intro h
    have hin := ((hmem left).1 h).2.1
    rw [hspan.2] at hin
    exact absurd hin (by decide)
  · have hnone : (fun v => (locator v).isNone) = fun v => !(locator v).isSome :=
      funext fun v => (Option.not_isSome (locator v)).symm
    rw [← hnodes.length_eq, hdiagnostics, List.length_map, hnone]
    exact (List.length_eq_length_filter_add _).symm

end PairNode

end Waymark
