import Waymark.Proofs.Span
import Waymark.Proofs.View.Told

/-!
# Coherent trees

A host is coherent about its nodes if they form one tree, as far as children and parents go, and if
calls give what they are said to give. On such a host no walk fails. Spans are nested if what is below
a node lies within it.
-/

namespace Waymark

open Relation

variable {ν : Type}

def Recovery.startsBelow : Recovery → Bool
  | .child | .childThenParent => true
  | .fail | .parent | .parentThenChild | .alternate => false

namespace Host

/-- The nodes in `N` form a tree with this root, and calls on them keep what was said about them. -/
structure Coherent (host : Host ν) (root : ν) (N : ν → Prop) : Prop where
  closed : host.Closed N
  isNode_root : N root
  childCount : ∀ v, N v → ∃ count, host.childCount v = .ok count
  child : ∀ v count i, N v → host.childCount v = .ok count → i < count → ∃ c, host.child v i = .ok c
  parent : ∀ v, N v → ∃ p, host.parent v = .ok p
  /-- Parents lead to the root, and no further. -/
  rooted : ∀ v, N v → ReflTransGen host.HasParent v root
  parent_root : host.parent root = .ok none
  parent_child : ∀ p c, N p → host.IsChild p c → host.HasParent c p
  once : ∀ p i j c, N p → host.Lists p i c → host.Lists p j c → i = j
  /-- A node that was said to be the result of a call is its result. -/
  honoured : ∀ v u o, N v → host.Enters v u (some o) → host.invoke u o.name o.args = .ok (some v)
  arguments : ∀ v, N v → Acc (fun m u => host.Needs u m) v

/-- Spans of their own are not turned around, and lie within those of the nodes above, unless these are
in another text. -/
structure Nested (host : Host ν) (positions : Convention) (N : ν → Prop) : Prop where
  ordered : ∀ v, N v → (host.rawSpan positions v).isMeaningful →
    (host.rawSpan positions v).start ≤ (host.rawSpan positions v).stop
  inside : ∀ a d, N a → TransGen host.IsChild a d → host.isExternal a = false →
    (host.rawSpan positions a).isMeaningful → (host.rawSpan positions d).isMeaningful →
    (host.rawSpan positions a).start ≤ (host.rawSpan positions d).start ∧
      (host.rawSpan positions d).stop ≤ (host.rawSpan positions a).stop

/-- Indices of children fit into 64 bits and depths into 32, as locators keep them. -/
structure Measured (host : Host ν) (N : ν → Prop) : Prop where
  wide : ∀ v count, N v → host.childCount v = .ok count → count ≤ 2 ^ 64
  deep : ∃ depth : ν → Nat, ∀ v, N v → depth v < 2 ^ 32 ∧ ∀ p, host.HasParent v p → depth p < depth v

variable {host : Host ν} {root : ν} {N : ν → Prop}

section
variable (hc : host.Coherent root N)
include hc

theorem Coherent.not_hasParent_root {p : ν} : ¬ host.HasParent root p := by
  rw [HasParent, hc.parent_root]
  simp

theorem Coherent.not_parents_circle {v : ν} (hv : N v) : ¬ TransGen host.HasParent v v := by
  -- A circle would go on up to the root.
  have up := hc.rooted v hv
  induction up using ReflTransGen.head_induction_on with
  | refl =>
    intro h
    obtain ⟨p, hp, -⟩ := TransGen.head'_iff.1 h
    exact hc.not_hasParent_root hp
  | @head v p hp _ ih =>
    intro h
    refine ih (hc.closed.parent v p hv hp) ?_
    obtain ⟨q, hq, hqv⟩ := TransGen.head'_iff.1 h
    obtain rfl := hp.unique hq
    exact TransGen.tail' hqv hp

theorem Coherent.grown : host.Grown N :=
  { hc with
    down := hc.closed.child
    up := hc.closed.parent
    circle := fun _ => hc.not_parents_circle }

theorem Coherent.orderly : host.Orderly N := hc.grown.orderly hc.arguments

theorem Coherent.rootedForest : host.RootedForest root N :=
  { hc with grown := hc.grown }

end

end Host

namespace View

def itself {w : View ν} {N : ν → Prop} (hc : w.host.Coherent w.root N) : Rebuild ν ν :=
  Rebuild.refl w N hc.closed hc.orderly hc.isNode_root

variable {w : View ν} {N : ν → Prop} (hc : w.host.Coherent w.root N)
include hc

/-! ## Walks end -/

theorem pushChildren_total {v : ν} (hv : N v) {count : Nat} (h : w.host.childCount v = .ok count)
    (depth : Nat) : ∀ (k : Nat) (stack : List (ν × Nat)), k ≤ count →
    ∃ st, w.pushChildren v depth k stack = .ok st
  | 0, stack, _ => ⟨stack, rfl⟩
  | k + 1, stack, hk => by
    obtain ⟨c, hchild, -⟩ := child_gives hc.grown hv h hk
    obtain ⟨st, hst⟩ := pushChildren_total hv h depth k ((c, depth) :: stack) (Nat.le_of_succ_le hk)
    refine ⟨st, ?_⟩
    rw [pushChildren, hchild]
    exact hst

theorem span_total {v : ν} (hv : N v) : ∃ s, w.span v = .ok s := by
  classical
  obtain ⟨s, hs, -⟩ := span_gives hc.rootedForest hv
  exact ⟨s, hs⟩

/-! ## Where spans come from -/

omit hc

theorem spanAbove_of_parent {v p : ν} {fuel : Nat} (hp : w.host.HasParent v p)
    (hm : (w.rawSpan p).isMeaningful = true) : w.spanAbove (fuel + 1) v = .ok (w.rawSpan p) := by
  rw [spanAbove, parent_eq_ok.2 hp]
  exact if_pos hm

theorem spanBelow_eq_ok {s : Span} (hs : s.isMeaningful = true) : ∀ {fuel : Nat} {v : ν},
    w.spanBelow fuel v = .ok s → ∃ d, TransGen w.host.IsChild v d ∧ s = w.rawSpan d
  | 0, v, h => by cases h
  | fuel + 1, v, h => by
    simp only [spanBelow, bind_eq_ok] at h
    obtain ⟨c, hchild, h⟩ := h
    cases c with
    | none =>
      rw [pure_eq_ok] at h
      subst h
      cases hs
    | some c =>
      have hl := firstChild_eq_ok hchild
      simp only at h
      split at h
      · exact ⟨c, .single ⟨0, hl⟩, (pure_eq_ok.1 h).symm⟩
      · obtain ⟨d, hd, rfl⟩ := spanBelow_eq_ok hs h
        exact ⟨d, .head ⟨0, hl⟩ hd, rfl⟩

/-- Next to a parent that has a span of its own, spans come from the parent, or from below where that is
looked at first. -/
theorem borrowedSpan_eq_ok {strategy : Recovery} {v p : ν} {s : Span} (hp : w.host.HasParent v p)
    (hm : (w.rawSpan p).isMeaningful = true) (h : w.borrowedSpan strategy v = .ok s)
    (hs : s.isMeaningful = true) :
    s = w.rawSpan p ∨
      strategy.startsBelow = true ∧ ∃ d, TransGen w.host.IsChild v d ∧ s = w.rawSpan d := by
  have habove : w.spanAbove w.reach v = .ok (w.rawSpan p) := spanAbove_of_parent hp hm
  cases strategy with
  | fail =>
    cases pure_eq_ok.1 h
    cases hs
  | parent =>
    rw [borrowedSpan, habove] at h
    exact .inl (by cases h; rfl)
  | child => exact .inr ⟨rfl, spanBelow_eq_ok hs h⟩
  | parentThenChild =>
    rw [borrowedSpan, habove] at h
    exact .inl (pure_eq_ok.1 ((if_pos hm).symm.trans h)).symm
  | childThenParent =>
    simp only [borrowedSpan, bind_eq_ok] at h
    obtain ⟨below, hbelow, h⟩ := h
    split at h
    · obtain rfl := pure_eq_ok.1 h
      exact .inr ⟨rfl, spanBelow_eq_ok hs hbelow⟩
    · rw [habove] at h
      exact .inl (by cases h; rfl)
  | alternate =>
    rw [borrowedSpan, reach, spanAround_succ (by simp), stepUp, parent_eq_ok.2 hp] at h
    exact .inl (pure_eq_ok.1 ((if_pos hm).symm.trans h)).symm

end View

namespace View

variable {w : View ν} {N : ν → Prop} (hc : w.host.Coherent w.root N)
variable (hn : w.host.Nested w.config.positions N)
include hc hn

/-- No search for a child passes its parent over. -/
theorem overlaps_child {p v : ν} {s : Span} (hp : N p) (hv : w.host.IsChild p v)
    (hext : w.host.isExternal p = false) (hm : (w.rawSpan p).isMeaningful = true) (h : w.span v = .ok s)
    (hs : s.isMeaningful = true) : (w.rawSpan p).overlaps s = true := by
  have inside : ∀ d, N d → TransGen w.host.IsChild p d → (w.rawSpan d).isMeaningful = true →
      (w.rawSpan p).overlaps (w.rawSpan d) = true := by
    intro d hd hpd hmd
    have hin := hn.inside p d hp hpd hext hm hmd
    exact Span.overlaps_of_inside hin.1 (hn.ordered d hd hmd) hin.2
  obtain ⟨i, hi⟩ := hv
  have hnv := hc.closed.child p i v hp hi
  by_cases hraw : (w.rawSpan v).isMeaningful = true
  · have hsv : w.rawSpan v = s := pure_eq_ok.1 ((if_pos hraw).symm.trans h)
    subst hsv
    exact inside v hnv (.single ⟨i, hi⟩) hraw
  · have hb : w.borrowedSpan w.config.recovery v = .ok s := (if_neg hraw).symm.trans h
    rcases borrowedSpan_eq_ok (hc.parent_child p v hp ⟨i, hi⟩) hm hb hs with rfl | ⟨-, d, hd, rfl⟩
    · exact Span.overlaps_self (hn.ordered p hp hm)
    · exact inside d (hc.grown.parents_of_below hnv hd).1 (.head ⟨i, hi⟩ hd) hs

omit hc in
theorem overlaps_own {v : ν} {s : Span} (hv : N v) (hm : (w.rawSpan v).isMeaningful = true)
    (h : w.span v = .ok s) : (w.rawSpan v).overlaps s = true := by
  have hsv : w.rawSpan v = s := pure_eq_ok.1 ((if_pos hm).symm.trans h)
  subst hsv
  exact Span.overlaps_self (hn.ordered v hv hm)

end View

end Waymark
