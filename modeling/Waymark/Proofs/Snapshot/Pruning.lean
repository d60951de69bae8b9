import Waymark.Proofs.Snapshot.BestMatch
import Waymark.Proofs.View.Coherent

/-!
# What a search passes over

Where spans are nested, no node is passed over that has a node below it which overlaps what is sought.
So a search finds something as good as any such node, and the node itself if its span is nearer than
those of all others with its mark.
-/

namespace Waymark

open Relation Op Snapshot

variable {ν : Type}

/-! ## Where a span comes from -/

theorem Nearest.found {spans : Nat → List Span} {s : Span} (h : Nearest spans s)
    (hs : s.isMeaningful = true) : ∃ d, 0 < d ∧ (spans d).find? Span.isMeaningful = some s ∧
      ∀ k, 0 < k → k < d → (spans k).find? Span.isMeaningful = none := by
  rcases h with h | ⟨rfl, -⟩
  · exact h
  · cases hs

namespace View

variable {w : View ν}

theorem spanAt_eq {o : Option ν} {s : Span} (h : w.spanAt o = s) (hs : s.isMeaningful = true) :
    ∃ p, o = some p ∧ s = w.rawSpan p := by
  cases o with
  | none =>
    subst h
    cases hs
  | some p => exact ⟨p, rfl, h.symm⟩

variable (w) in
def FromAbove (v : ν) (s : Span) : Prop :=
  ∃ d p, 0 < d ∧ ahead w.host.parent? d v = some p ∧ s = w.rawSpan p ∧
    ∀ k, 0 < k → k < d → (w.spanAt (ahead w.host.parent? k v)).isMeaningful = false

variable (w) in
def FromBelow (v : ν) (s : Span) : Prop :=
  ∃ d c, 0 < d ∧ ahead w.host.firstChild? d v = some c ∧ s = w.rawSpan c

theorem Recovers.source {strategy : Recovery} {v : ν} {s : Span} (h : w.Recovers strategy v s)
    (hs : s.isMeaningful = true) : w.FromAbove v s ∨ w.FromBelow v s := by
  have above (h : Nearest (fun d => [w.spanAt (ahead w.host.parent? d v)]) s) : w.FromAbove v s := by
    obtain ⟨d, hd, hfound, hbefore⟩ := h.found hs
    obtain ⟨p, hp, hsp⟩ := spanAt_eq (List.mem_singleton.1 (List.mem_of_find?_eq_some hfound)).symm hs
    exact ⟨d, p, hd, hp, hsp, fun k hk hkd => by simpa using hbefore k hk hkd⟩
  have below (h : Nearest (fun d => [w.spanAt (ahead w.host.firstChild? d v)]) s) : w.FromBelow v s := by
    obtain ⟨d, hd, hfound, -⟩ := h.found hs
    obtain ⟨c, hc, hsc⟩ := spanAt_eq (List.mem_singleton.1 (List.mem_of_find?_eq_some hfound)).symm hs
    exact ⟨d, c, hd, hc, hsc⟩
  cases strategy with
  | fail =>
    cases h
    cases hs
  | parent => exact .inl (above h)
  | child => exact .inr (below h)
  | parentThenChild =>
    rcases h with ⟨h, -⟩ | ⟨-, h⟩
    · exact .inl (above h)
    · exact .inr (below h)
  | childThenParent =>
    rcases h with ⟨h, -⟩ | ⟨-, h⟩
    · exact .inr (below h)
    · exact .inl (above h)
  | alternate =>
    obtain ⟨d, hd, hfound, hbefore⟩ := Nearest.found h hs
    rcases List.mem_pair.1 (List.mem_of_find?_eq_some hfound) with heq | heq
    · obtain ⟨p, hp, hsp⟩ := spanAt_eq heq.symm hs
      refine .inl ⟨d, p, hd, hp, hsp, fun k hk hkd => ?_⟩
      have hnone := List.find?_eq_none.1 (hbefore k hk hkd)
      exact eq_false_of_ne_true (hnone _ (by simp))
    · obtain ⟨c, hc, hsc⟩ := spanAt_eq heq.symm hs
      exact .inr ⟨d, c, hd, hc, hsc⟩

end View

/-! ## Spans above and below -/

namespace Host

variable {host : Host ν} {N : ν → Prop}

theorem hasParent_of_parent? {v p : ν} (h : host.parent? v = some p) : host.HasParent v p := by
  unfold parent? at h
  cases hp : host.parent v with
  | ok q =>
    rw [hp] at h
    exact hp.trans (congrArg _ h)
  | error m =>
    rw [hp] at h
    cases h

theorem isChild_of_firstChild? {v c : ν} (h : host.firstChild? v = some c) : host.IsChild v c := by
  unfold firstChild? at h
  split at h
  · rename_i count hcount
    cases hc : host.child v 0 with
    | ok u =>
      rw [hc] at h
      cases h
      exact ⟨0, count + 1, hcount, Nat.succ_pos count, hc⟩
    | error m =>
      rw [hc] at h
      cases h
  · cases h

theorem above_of_ahead {d : Nat} {v p : ν} (h : ahead host.parent? d v = some p) :
    ReflTransGen host.HasParent v p :=
  reaches_of_ahead (fun _ _ => hasParent_of_parent?) h

theorem below_of_ahead {d : Nat} {v c : ν} (h : ahead host.firstChild? d v = some c) : host.Below v c :=
  reaches_of_ahead (fun _ _ => isChild_of_firstChild?) h

/-- Parents lead back along the way down. -/
theorem Grown.ahead_parent (hg : host.Grown N) {a v : ν} {path : List Nat} (ha : N a)
    (h : host.Way a path v) : ∀ {d : Nat}, d ≤ path.length →
      ∃ p, ahead host.parent? d v = some p ∧ host.Way a (path.drop d) p := by
  induction h with
  | here =>
    intro d hd
    obtain rfl := Nat.le_zero.1 hd
    exact ⟨a, rfl, .here⟩
  | @down path v i c h hc ih =>
    intro d hd
    cases d with
    | zero => exact ⟨c, rfl, .down h hc⟩
    | succ d =>
      obtain ⟨p, hp, hway⟩ := ih (Nat.le_of_succ_le_succ hd)
      have hparent := parent?_eq (hg.parent_child v c (hg.below ha (below_of_way h)) ⟨i, hc⟩)
      exact ⟨p, by rw [ahead, hparent]; exact hp, hway⟩

end Host

namespace View

variable {w : View ν} {N : ν → Prop} (hg : w.host.Grown N) (hnest : w.host.Nested w.config.positions N)
include hg hnest

/-- The span of a node lies within that of every node above which has one and is in the same text. -/
theorem HasSpan.within {x v : ν} {s : Span} (hx : N x) (hv : w.host.Below x v) (h : w.HasSpan v s)
    (hs : s.isMeaningful = true) (hext : w.host.isExternal x = false)
    (hm : (w.rawSpan x).isMeaningful = true) :
    (w.rawSpan x).start ≤ s.start ∧ s.stop ≤ (w.rawSpan x).stop := by
  -- This is so for the span of a node at or below `x`, wherever it was borrowed from.
  have inside : ∀ d, w.host.Below x d → s = w.rawSpan d →
      (w.rawSpan x).start ≤ s.start ∧ s.stop ≤ (w.rawSpan x).stop := by
    rintro d hd rfl
    rcases reflTransGen_iff_eq_or_transGen.1 hd with rfl | hd
    · exact ⟨UInt32.le_refl _, UInt32.le_refl _⟩
    · exact hnest.inside x d hx hd hext hm hs
  unfold HasSpan HasSpanUnder at h
  split at h
  · exact inside v hv h
  rename_i hraw
  rcases h.recovers.source hs with ⟨d, p, hd, hp, hsp, hbefore⟩ | ⟨d, c, -, hc, hsc⟩
  · obtain ⟨path, hway⟩ := hv.way
    by_cases hle : d ≤ path.length
    · obtain ⟨q, hq, hway'⟩ := hg.ahead_parent hx hway hle
      rw [hp] at hq
      cases hq
      exact inside p (Host.below_of_way hway') hsp
    · -- The walk up would have stopped at `x`.
      obtain ⟨q, hq, hway'⟩ := hg.ahead_parent hx hway (Nat.le_refl _)
      rw [List.drop_length] at hway'
      cases hway'
      have hpos : 0 < path.length := by
        cases path with
        | nil =>
          cases hway
          exact absurd hm hraw
        | cons i path => exact Nat.succ_pos _
      have hnot := hbefore path.length hpos (by omega)
      rw [hq] at hnot
      exact absurd hm (by simpa [spanAt] using hnot)
  · exact inside c (hv.trans (Host.below_of_ahead hc)) hsc

theorem HasSpan.ordered {v : ν} {s : Span} (hv : N v) (h : w.HasSpan v s) (hs : s.isMeaningful = true) :
    s.start ≤ s.stop := by
  have ordered : ∀ u, N u → s = w.rawSpan u → s.start ≤ s.stop := by
    rintro u hu rfl
    exact hnest.ordered u hu hs
  unfold HasSpan HasSpanUnder at h
  split at h
  · exact ordered v hv h
  · rcases h.recovers.source hs with ⟨d, p, -, hp, hsp, -⟩ | ⟨d, c, -, hc, hsc⟩
    · exact ordered p (hg.above hv (Host.above_of_ahead hp)) hsp
    · exact ordered c (hg.below hv (Host.below_of_ahead hc)) hsc

end View

/-! ## Searching -/

namespace View

variable [DecidableEq ν] {w : View ν} {N : ν → Prop} {t : Sought} {ignore : Option ν} {v : ν} {s : Span}

end View

namespace Snapshot

variable [DecidableEq ν] {host : Host ν} {root : ν} {s : Snapshot ν}

end Snapshot

namespace PairNode

theorem nested_tree : tree.Nested .packed fun _ => True where
  ordered v _ := by cases v <;> decide
  inside a d _ h _ := by
    have hbelow : ∀ d, TransGen tree.IsChild a d → a = block ∨ a = right ∧ d = leaf := by
      intro d hd
      induction hd with
      | single hc =>
        obtain ⟨i, hi⟩ := hc
        obtain ⟨rfl, -, rfl⟩ | ⟨rfl, -, rfl⟩ | ⟨rfl, -, rfl⟩ := lists_tree hi <;> decide
      | tail _ hc ih =>
        obtain ⟨i, hi⟩ := hc
        obtain ⟨rfl, -, rfl⟩ | ⟨rfl, -, rfl⟩ | ⟨rfl, -, rfl⟩ := lists_tree hi <;> simp_all
    obtain rfl | ⟨rfl, rfl⟩ := hbelow d h
    · cases d <;> decide
    · decide

/-- The node without a span, where it was seen before the text grew, and with a depth that is wrong. -/
def drifted : Fingerprint := { type := "Leaf", span := ⟨6, 9⟩, depth := 0 }

def seen : Snapshot PairNode :=
  ((Request.node left).op.exec tree ((Request.targetOf drifted).op.exec tree (ofRoot {} tree block)).2).2

end PairNode

end Waymark
