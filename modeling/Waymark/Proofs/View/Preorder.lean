import Waymark.Proofs.View.Borrowed

/-!
# Searches in pre-order

What a search comes to, said with no stack and no bound. The branch at and below the start is gone
through in pre-order, the nodes that fit what is sought are rated, and of those with the best score the
first one is found.
-/

namespace Waymark

open Relation

variable {ν α β : Type}

/-! ## Branches -/

inductive Branch (ν : Type) where
  | node (v : ν) (children : List (Branch ν))

namespace Branch

def root : Branch ν → ν
  | .node v _ => v

section
variable (opens : ν → Bool)

mutual

/-- The nodes in pre-order, each with its depth. Those that do not open are left out with all below. -/
def order (depth : Nat) : Branch ν → List (ν × Nat)
  | .node v cs => if opens v then (v, depth) :: orderAll (depth + 1) cs else []

def orderAll (depth : Nat) : List (Branch ν) → List (ν × Nat)
  | [] => []
  | b :: bs => order depth b ++ orderAll depth bs

end

theorem orderAll_eq (depth : Nat) (bs : List (Branch ν)) :
    orderAll opens depth bs = bs.flatMap (order opens depth) := by
  induction bs with
  | nil => rfl
  | cons b bs ih => rw [orderAll, ih, List.flatMap_cons]

end

end Branch

inductive Host.Unfolds (host : Host ν) : Branch ν → Prop where
  | node {v : ν} {cs : List (Branch ν)} (hcount : host.childCount v = .ok cs.length)
    (hchild : ∀ (i : Nat) b, cs[i]? = some b → host.child v i = .ok b.root)
    (hcs : ∀ b ∈ cs, Unfolds host b) : Unfolds host (.node v cs)

namespace Host

variable {host : Host ν}

theorem Unfolds.lists {v : ν} {cs : List (Branch ν)} (h : host.Unfolds (.node v cs)) {i : Nat}
    {b : Branch ν} (hb : cs[i]? = some b) : host.Lists v i b.root := by
  cases h with
  | node hcount hchild hcs =>
    exact ⟨cs.length, hcount, (List.getElem?_eq_some_iff.1 hb).1, hchild i b hb⟩

theorem Unfolds.child {v : ν} {cs : List (Branch ν)} (h : host.Unfolds (.node v cs)) :
    ∀ b ∈ cs, host.Unfolds b := by
  cases h with
  | node _ _ hcs => exact hcs

/-- A child is the root of one of the branches. -/
theorem Unfolds.branch {v c : ν} {i : Nat} {cs : List (Branch ν)} (h : host.Unfolds (.node v cs))
    (hc : host.Lists v i c) : ∃ b, cs[i]? = some b ∧ b.root = c := by
  cases h with
  | node hcount hchild hcs =>
    obtain ⟨count, hcount', hi, hc⟩ := hc
    rw [hcount] at hcount'
    cases hcount'
    have hb := List.getElem?_eq_getElem hi
    have hr := hchild i _ hb
    rw [hc] at hr
    cases hr
    exact ⟨_, hb, rfl⟩

/-- Where the children are told and every way down ends, there is a branch. -/
theorem exists_unfolds {a : ν} (hacc : Acc (fun c v => host.IsChild v c) a)
    (hcount : ∀ v, host.Below a v → ∃ count, host.childCount v = .ok count)
    (hchild : ∀ v count i, host.Below a v → host.childCount v = .ok count → i < count →
      ∃ c, host.child v i = .ok c) : ∃ b : Branch ν, b.root = a ∧ host.Unfolds b := by
  induction hacc with
  | intro v _ ih =>
    obtain ⟨count, hv⟩ := hcount v .refl
    have hbranch : ∀ i : Fin count, ∃ b : Branch ν, host.child v i = .ok b.root ∧ host.Unfolds b := by
      intro i
      obtain ⟨c, hc⟩ := hchild v count i .refl hv i.2
      have hvc : host.IsChild v c := ⟨i, count, hv, i.2, hc⟩
      obtain ⟨b, rfl, hb⟩ := ih c hvc (fun u hu => hcount u (.head hvc hu))
        fun u k j hu => hchild u k j (.head hvc hu)
      exact ⟨b, hc, hb⟩
    choose f hf using hbranch
    refine ⟨.node v (List.ofFn f), rfl, .node (by rw [List.length_ofFn]; exact hv) ?_ ?_⟩
    · intro i b hb
      rw [List.getElem?_ofFn] at hb
      split at hb
      · rename_i hi
        cases hb
        exact (hf ⟨i, hi⟩).1
      · cases hb
    · intro b hb
      obtain ⟨i, rfl⟩ := List.mem_ofFn.1 hb
      exact (hf i).2

/-- A way down goes to a child first. -/
theorem Way.head {a v : ν} {path : List Nat} (h : host.Way a path v) :
    path = [] ∧ v = a ∨ ∃ i c path', path = path' ++ [i] ∧ host.Lists a i c ∧ host.Way c path' v := by
  induction h with
  | here => exact .inl ⟨rfl, rfl⟩
  | @down path u i c h hc ih =>
    right
    rcases ih with ⟨rfl, rfl⟩ | ⟨j, d, path', rfl, hd, hway⟩
    · exact ⟨i, c, [], rfl, hc, .here⟩
    · exact ⟨j, d, i :: path', rfl, hd, .down hway hc⟩

theorem Way.cons {a c v : ν} {i : Nat} {path : List Nat} (hc : host.Lists a i c)
    (h : host.Way c path v) : host.Way a (path ++ [i]) v := by
  induction h with
  | here => exact .down .here hc
  | down _ hl ih => exact .down ih hl

section
variable {opens : ν → Bool} {b : Branch ν}

/-- A node is in the order if all nodes on the way to it open. -/
theorem Unfolds.mem_order (h : host.Unfolds b) : ∀ {v : ν} {path : List Nat} (depth : Nat),
    host.Way b.root path v → (∀ x, host.Below b.root x → host.Below x v → opens x = true) →
    (v, depth + path.length) ∈ b.order opens depth := by
  induction h with
  | @node u cs hcount hchild hcs ih =>
    intro v path depth hway hopen
    have hu := hopen u .refl (below_of_way hway)
    rw [Branch.order, if_pos hu, Branch.orderAll_eq]
    rcases hway.head with ⟨rfl, rfl⟩ | ⟨i, c, path', rfl, hc, hway'⟩
    · exact List.mem_cons_self
    · obtain ⟨b, hb, rfl⟩ := (Unfolds.node hcount hchild hcs).branch hc
      have hmem := List.mem_of_getElem? hb
      have hin := ih b hmem (depth + 1) hway' fun x hx => hopen x (.head ⟨i, hc⟩ hx)
      refine List.mem_cons_of_mem _ (List.mem_flatMap.2 ⟨b, hmem, ?_⟩)
      rwa [List.length_append, List.length_singleton, Nat.add_comm path'.length, ← Nat.add_assoc]

/-- What is in the order was come to by a way down through nodes that open. -/
theorem Unfolds.way_of_mem_order (h : host.Unfolds b) : ∀ {depth : Nat} {x : ν × Nat},
    x ∈ b.order opens depth → ∃ path, host.Way b.root path x.1 ∧ x.2 = depth + path.length := by
  induction h with
  | @node u cs hcount hchild hcs ih =>
    intro depth x hx
    rw [Branch.order] at hx
    split at hx
    · rw [Branch.orderAll_eq] at hx
      rcases List.mem_cons.1 hx with rfl | hx
      · exact ⟨[], .here, rfl⟩
      · obtain ⟨b, hmem, hx⟩ := List.mem_flatMap.1 hx
        obtain ⟨path, hway, hlen⟩ := ih b hmem hx
        obtain ⟨i, hi⟩ := List.mem_iff_getElem?.1 hmem
        refine ⟨path ++ [i], .cons ((Unfolds.node hcount hchild hcs).lists hi) hway, ?_⟩
        rw [hlen, List.length_append, List.length_singleton]
        omega
    · cases hx

end

end Host

/-! ## Scores -/

namespace Score

theorem better_iff {s t : Score} : s.better t = true ↔
    s.distance < t.distance ∨ s.distance = t.distance ∧ s.depthError < t.depthError := by
  simp [better]

theorem better_irrefl (s : Score) : s.better s = false := by
  simp [better]

theorem better_trans {s t u : Score} (h : s.better t = true) (h' : t.better u = true) :
    s.better u = true := by
  rw [better_iff] at *
  omega

/-- Where none of two is better, they are the same. -/
theorem eq_of_not_better {s t : Score} (h : s.better t = false) (h' : t.better s = false) : s = t := by
  rw [← Bool.not_eq_true, better_iff] at h h'
  obtain ⟨d, e⟩ := s
  obtain ⟨d', e'⟩ := t
  simp only [mk.injEq] at *
  omega

end Score

def leaders (l : List (α × Score)) : List (α × Score) :=
  l.filter fun x => l.all fun y => !y.2.better x.2

section
variable {l : List (α × Score)} {x y : α × Score}

theorem mem_leaders : x ∈ leaders l ↔ x ∈ l ∧ ∀ y ∈ l, y.2.better x.2 = false := by
  simp [leaders]

/-- All leaders have the same score. -/
theorem leaders_eq (hx : x ∈ leaders l) : leaders l = l.filter fun y => y.2 = x.2 := by
  obtain ⟨hx, hbest⟩ := mem_leaders.1 hx
  refine List.filter_congr fun y hy => ?_
  rw [Bool.eq_iff_iff, decide_eq_true_iff]
  constructor
  · intro h
    have hxy : x.2.better y.2 = false := by simpa using List.all_eq_true.1 h x hx
    exact Score.eq_of_not_better (hbest y hy) hxy
  · intro h
    rw [h, List.all_eq_true]
    exact fun z hz => by rw [hbest z hz]; rfl

theorem mem_leaders_append (hx : x ∈ leaders l) (hy : y.2.better x.2 = false) : x ∈ leaders (l ++ [y]) := by
  obtain ⟨hx, hbest⟩ := mem_leaders.1 hx
  refine mem_leaders.2 ⟨List.mem_append_left _ hx, fun z hz => ?_⟩
  rcases List.mem_append.1 hz with hz | hz
  · exact hbest z hz
  · rw [List.mem_singleton.1 hz]
    exact hy

theorem leaders_append_equal (hx : x ∈ leaders l) (hy : y.2 = x.2) : leaders (l ++ [y]) = leaders l ++ [y] := by
  rw [leaders_eq (mem_leaders_append hx (hy ▸ Score.better_irrefl _)), leaders_eq hx, List.filter_append]
  simp [hy]

theorem leaders_append_better (hx : x ∈ leaders l) (hy : y.2.better x.2 = true) :
    leaders (l ++ [y]) = [y] := by
  have hbest := (mem_leaders.1 hx).2
  -- What is not beaten by the leader is beaten by what beats the leader.
  have hall : ∀ z ∈ l, z.2.better y.2 = false ∧ z.2 ≠ y.2 := by
    intro z hz
    refine ⟨eq_false_of_ne_true fun h => ?_, fun h => ?_⟩
    · have hzx := Score.better_trans h hy
      rw [hbest z hz] at hzx
      cases hzx
    · rw [← h, hbest z hz] at hy
      cases hy
  have hlead : y ∈ leaders (l ++ [y]) := by
    refine mem_leaders.2 ⟨by simp, fun z hz => ?_⟩
    rcases List.mem_append.1 hz with hz | hz
    · exact (hall z hz).1
    · rw [List.mem_singleton.1 hz]
      exact Score.better_irrefl _
  rw [leaders_eq hlead, List.filter_append, List.filter_eq_nil_iff.2 fun z hz => by simp [(hall z hz).2]]
  simp

theorem leaders_append_worse (hx : x ∈ leaders l) (hy : y.2.better x.2 = false) (hne : y.2 ≠ x.2) :
    leaders (l ++ [y]) = leaders l := by
  rw [leaders_eq (mem_leaders_append hx hy), leaders_eq hx, List.filter_append]
  simp [hne]

/-- Something leads in every list that is not empty. -/
theorem leaders_eq_nil : leaders l = [] ↔ l = [] := by
  induction l using List.reverseRecOn with
  | nil => simp [leaders]
  | append_singleton l y ih =>
    refine ⟨fun h => ?_, fun h => absurd h (by simp)⟩
    cases hl : leaders l with
    | nil => simp [ih.1 hl, leaders, Score.better_irrefl] at h
    | cons x rest =>
      have hx : x ∈ leaders l := by rw [hl]; exact List.mem_cons_self
      by_cases hb : y.2.better x.2 = true
      · simp [leaders_append_better hx hb] at h
      · have hlead := mem_leaders_append hx (eq_false_of_ne_true hb)
        rw [h] at hlead
        cases hlead

end

/-! ## The best so far -/

def Match.map (f : α → β) : Match α → Match β
  | .none => .none
  | .best n score => .best (f n) score
  | .ambiguous => .ambiguous

namespace Best

section
variable (f : α → β) (b : Best α)

def map : Best β := ⟨b.found.map fun x => (f x.1, x.2), b.tied⟩

theorem map_offer (n : α) (score : Score) : (b.offer n score).map f = (b.map f).offer (f n) score := by
  unfold offer map
  cases hf : b.found with
  | none => simp
  | some top =>
    obtain ⟨m, top⟩ := top
    simp only [Option.map_some]
    split
    · rfl
    · split <;> simp [hf]

theorem isSettled_map : (b.map f).isSettled = b.isSettled := by
  unfold isSettled map
  cases b.found <;> rfl

theorem outcome_map (strict : Bool) : (b.map f).outcome strict = (b.outcome strict).map f := by
  unfold outcome map
  cases b.found with
  | none => rfl
  | some top =>
    simp only [Option.map_some]
    split <;> rfl

end

def offerAll (b : Best α) (l : List (α × Score)) : Best α := l.foldl (fun b x => b.offer x.1 x.2) b

structure IsBestOf (b : Best α) (l : List (α × Score)) : Prop where
  found : b.found = (leaders l).head?
  tied : b.tied = decide (1 < (leaders l).length)

theorem IsBestOf.offer {b : Best α} {l : List (α × Score)} (h : b.IsBestOf l) (x : α × Score) :
    (b.offer x.1 x.2).IsBestOf (l ++ [x]) := by
  unfold Best.offer
  cases hl : leaders l with
  | nil =>
    rw [h.found, hl, leaders_eq_nil.1 hl]
    constructor <;> simp [leaders, Score.better_irrefl]
  | cons y rest =>
    have hy : y ∈ leaders l := by rw [hl]; exact List.mem_cons_self
    rw [h.found, hl]
    simp only [List.head?_cons]
    split
    · rename_i heq
      constructor <;> simp [leaders_append_equal hy heq, hl]
    · rename_i hne
      split
      · rename_i hbetter
        constructor <;> simp [leaders_append_better hy hbetter]
      · rename_i hworse
        have hw := leaders_append_worse hy (eq_false_of_ne_true hworse) hne
        exact ⟨by rw [hw, h.found], by rw [hw, h.tied]⟩

theorem IsBestOf.offerAll {b : Best α} {l : List (α × Score)} (h : b.IsBestOf l) (more : List (α × Score)) :
    (b.offerAll more).IsBestOf (l ++ more) := by
  induction more generalizing b l with
  | nil => simpa [Best.offerAll] using h
  | cons x more ih =>
    have := ih (h.offer x)
    rwa [List.append_assoc, List.singleton_append] at this

theorem isBestOf_all (l : List (α × Score)) : (({} : Best α).offerAll l).IsBestOf l :=
  IsBestOf.offerAll (l := []) ⟨rfl, rfl⟩ l

/-- Two exact matches are not beaten any more. -/
theorem IsSettled.offer {b : Best α} (h : b.isSettled = true) (n : α) (score : Score) :
    (b.offer n score).isSettled = true := by
  unfold isSettled at h
  unfold Best.offer
  cases hf : b.found with
  | none => simp [hf] at h
  | some top =>
    simp only [hf, Bool.and_eq_true, beq_iff_eq] at h
    have hexact : score.better top.2 = false := by simp [Score.better, h.2, Score.exact]
    simp only [hexact, Bool.false_eq_true, if_false]
    split <;> simp [isSettled, hf, h]

theorem IsSettled.outcome {b : Best α} (h : b.isSettled = true) (l : List (α × Score)) :
    (b.offerAll l).outcome true = .ambiguous := by
  induction l generalizing b with
  | nil =>
    unfold isSettled at h
    cases hf : b.found with
    | none => simp [hf] at h
    | some top =>
      simp only [hf, Bool.and_eq_true] at h
      simp [offerAll, Best.outcome, hf, h.1]
  | cons x l ih => exact ih (IsSettled.offer h x.1 x.2)

end Best

def Match.ofLeaders (strict : Bool) : List (α × Score) → Match α
  | [] => .none
  | [x] => .best x.1 x.2
  | x :: _ :: _ => if strict then .ambiguous else .best x.1 x.2

theorem Match.ofLeaders_eq_ambiguous {strict : Bool} {l : List (α × Score)}
    (h : ofLeaders strict l = .ambiguous) : ∃ x y rest, l = x :: y :: rest := by
  match l, h with
  | x :: y :: rest, _ => exact ⟨x, y, rest, rfl⟩

theorem Best.IsBestOf.outcome {b : Best α} {l : List (α × Score)} (h : b.IsBestOf l) (strict : Bool) :
    b.outcome strict = .ofLeaders strict (leaders l) := by
  unfold Best.outcome
  rw [h.found, h.tied]
  match leaders l with
  | [] => rfl
  | [x] => rfl
  | x :: y :: rest => cases strict <;> simp [Match.ofLeaders]

/-! ## Searching -/

def View.Sought.score (t : View.Sought) (s : Span) (depth : Nat) : Score :=
  ⟨s.distance t.span, ((depth : Int) - t.depth).natAbs⟩

namespace View

section
variable (w : View ν) (t : Sought) (span : ν → Span)

def rated (visits : List (ν × Nat)) : List (ν × Score) :=
  (visits.filter fun x => !w.host.isExternal x.1 && w.mark x.1 == t.mark).map
    fun x => (x.1, t.score (span x.1) x.2)

variable {w t span} {v : ν} {depth : Nat}

theorem rated_append (visits more : List (ν × Nat)) :
    w.rated t span (visits ++ more) = w.rated t span visits ++ w.rated t span more := by
  simp only [rated, List.filter_append, List.map_append]

theorem rated_external (h : w.host.isExternal v = true) : w.rated t span [(v, depth)] = [] := by
  simp [rated, h]

theorem rated_other (h : w.mark v ≠ t.mark) : w.rated t span [(v, depth)] = [] := by
  simp [rated, h]

theorem rated_wanted (hext : w.host.isExternal v = false) (h : w.mark v = t.mark) :
    w.rated t span [(v, depth)] = [(v, t.score (span v) depth)] := by
  simp [rated, h, hext]

end

variable [DecidableEq ν] (w : View ν) (t : Sought) (span : ν → Span) (ignore : Option ν) (strict : Bool)

def goesInto (v : ν) : Bool := ignore != some v && (w.host.isExternal v || !w.isAway t v)

def searched (stack : List (Branch ν × Nat)) (best : Best ν) : Match ν :=
  (best.offerAll (w.rated t span (stack.flatMap fun x => x.1.order (w.goesInto t ignore) x.2))).outcome strict

variable {w t span ignore strict} {v : ν} {cs : List (Branch ν)} {depth : Nat}
variable {stack : List (Branch ν × Nat)} {best : Best ν}

theorem searched_passed (h : w.goesInto t ignore v = false) :
    w.searched t span ignore strict ((.node v cs, depth) :: stack) best =
      w.searched t span ignore strict stack best := by
  simp [searched, Branch.order, h]

theorem searched_entered (h : w.goesInto t ignore v = true) :
    w.searched t span ignore strict ((.node v cs, depth) :: stack) best =
      w.searched t span ignore strict (cs.map (·, depth + 1) ++ stack)
        (best.offerAll (w.rated t span [(v, depth)])) := by
  unfold searched
  rw [List.flatMap_cons, Branch.order, if_pos h, List.cons_append, ← List.singleton_append, rated_append,
    Branch.orderAll_eq, List.flatMap_append, List.flatMap_map]
  simp only [Best.offerAll, List.foldl_append]

theorem searched_settled (h : best.isSettled = true) :
    w.searched t span ignore true stack best = .ambiguous :=
  Best.IsSettled.outcome h _

/-- The search has found the leaders. -/
theorem searched_eq (b : Branch ν) : w.searched t span ignore strict [(b, 0)] {} =
    .ofLeaders strict (leaders (w.rated t span (b.order (w.goesInto t ignore) 0))) := by
  rw [searched, List.flatMap_singleton]
  exact (Best.isBestOf_all _).outcome strict

end View

end Waymark
