import Waymark.Proofs.View.Basic

/-!
# Which span a node has

The span that a node borrows is said here as a relation. It asks for no bound on the walks, so it makes
sense on any host: where a walk never ends there is no span to borrow, and where there is one it is the
only one.
-/

namespace Waymark.View

variable {ν : Type} (w : View ν)

/-! ## The walks -/

/-- The span of the nearest node with one on the way that `next` goes from `v`. -/
inductive Ahead (next : ν → Except Fault (Option ν)) : ν → Span → Prop where
  | ends {v : ν} (h : next v = .ok none) : Ahead next v .none
  | here {v u : ν} (h : next v = .ok (some u)) (hm : (w.rawSpan u).isMeaningful = true) :
    Ahead next v (w.rawSpan u)
  | beyond {v u : ν} {s : Span} (h : next v = .ok (some u)) (hm : (w.rawSpan u).isMeaningful = false)
    (hs : Ahead next u s) : Ahead next v s

/-- The nearer of the spans above `up` and below `down`, where a step up comes before a step down. -/
inductive Around : Option ν → Option ν → Span → Prop where
  | ends : Around none none .none
  | foundAbove {up down up' : Option ν} {s : Span} (hu : w.stepUp up = .ok (up', s))
    (hs : s.isMeaningful = true) : Around up down s
  | foundBelow {up down up' down' : Option ν} {s s' : Span} (hu : w.stepUp up = .ok (up', s))
    (hs : s.isMeaningful = false) (hd : w.stepDown down = .ok (down', s'))
    (hs' : s'.isMeaningful = true) : Around up down s'
  | beyond {up down up' down' : Option ν} {s s' t : Span} (hne : up = none → down ≠ none)
    (hu : w.stepUp up = .ok (up', s)) (hs : s.isMeaningful = false)
    (hd : w.stepDown down = .ok (down', s')) (hs' : s'.isMeaningful = false)
    (ht : Around up' down' t) : Around up down t

inductive Borrows : Recovery → ν → Span → Prop where
  | fail {v : ν} : Borrows .fail v .none
  | parent {v : ν} {s : Span} (h : w.Ahead w.parent v s) : Borrows .parent v s
  | child {v : ν} {s : Span} (h : w.Ahead w.firstChild v s) : Borrows .child v s
  | parentFirst {v : ν} {s : Span} (h : w.Ahead w.parent v s) (hs : s.isMeaningful = true) :
    Borrows .parentThenChild v s
  | parentThenChild {v : ν} {s t : Span} (h : w.Ahead w.parent v s) (hs : s.isMeaningful = false)
    (ht : w.Ahead w.firstChild v t) : Borrows .parentThenChild v t
  | childFirst {v : ν} {s : Span} (h : w.Ahead w.firstChild v s) (hs : s.isMeaningful = true) :
    Borrows .childThenParent v s
  | childThenParent {v : ν} {s t : Span} (h : w.Ahead w.firstChild v s) (hs : s.isMeaningful = false)
    (ht : w.Ahead w.parent v t) : Borrows .childThenParent v t
  | alternate {v : ν} {s : Span} (h : w.Around (some v) (some v) s) : Borrows .alternate v s

def HasSpanUnder (strategy : Recovery) (v : ν) (s : Span) : Prop :=
  if (w.rawSpan v).isMeaningful then s = w.rawSpan v else w.Borrows strategy v s

def HasSpan (v : ν) (s : Span) : Prop := w.HasSpanUnder w.config.recovery v s

/-! ## At most one span -/

variable {w}

theorem Ahead.unique {next : ν → Except Fault (Option ν)} {v : ν} {s t : Span}
    (h : w.Ahead next v s) (h' : w.Ahead next v t) : s = t := by
  induction h with
  | ends h =>
    cases h' with
    | ends => rfl
    | here h₂ | beyond h₂ => rw [h] at h₂; cases h₂
  | here h hm =>
    cases h' with
    | ends h₂ => rw [h] at h₂; cases h₂
    | here h₂ => rw [h] at h₂; cases h₂; rfl
    | beyond h₂ hm₂ => rw [h] at h₂; cases h₂; rw [hm] at hm₂; cases hm₂
  | beyond h hm _ ih =>
    cases h' with
    | ends h₂ => rw [h] at h₂; cases h₂
    | here h₂ hm₂ => rw [h] at h₂; cases h₂; rw [hm] at hm₂; cases hm₂
    | beyond h₂ _ hs₂ => rw [h] at h₂; cases h₂; exact ih hs₂

/-- Where a walk is not at its end, there is one next pair of nodes. -/
theorem Around.unique {up down : Option ν} {s t : Span} (h : w.Around up down s)
    (h' : w.Around up down t) : s = t := by
  have hnone : w.stepUp none = .ok (none, .none) ∧ w.stepDown none = .ok (none, .none) := ⟨rfl, rfl⟩
  have hfalse : Span.none.isMeaningful = false := rfl
  induction h with
  | ends =>
    cases h' with
    | ends => rfl
    | foundAbove hu hs => rw [hnone.1] at hu; cases hu; cases hs
    | foundBelow hu hs hd hs' => rw [hnone.2] at hd; cases hd; cases hs'
    | beyond hne => exact absurd rfl (hne rfl)
  | foundAbove hu hs =>
    cases h' with
    | ends => rw [hnone.1] at hu; cases hu; cases hs
    | foundAbove hu₂ hs₂ => rw [hu] at hu₂; cases hu₂; rfl
    | foundBelow hu₂ hs₂ => rw [hu] at hu₂; cases hu₂; rw [hs] at hs₂; cases hs₂
    | beyond _ hu₂ hs₂ => rw [hu] at hu₂; cases hu₂; rw [hs] at hs₂; cases hs₂
  | foundBelow hu hs hd hs' =>
    cases h' with
    | ends => rw [hnone.2] at hd; cases hd; cases hs'
    | foundAbove hu₂ hs₂ => rw [hu] at hu₂; cases hu₂; rw [hs] at hs₂; cases hs₂
    | foundBelow _ _ hd₂ hs₂ => rw [hd] at hd₂; cases hd₂; rfl
    | beyond _ _ _ hd₂ hs₂ => rw [hd] at hd₂; cases hd₂; rw [hs'] at hs₂; cases hs₂
  | beyond hne hu hs hd hs' _ ih =>
    cases h' with
    | ends => exact absurd rfl (hne rfl)
    | foundAbove hu₂ hs₂ => rw [hu] at hu₂; cases hu₂; rw [hs] at hs₂; cases hs₂
    | foundBelow _ _ hd₂ hs₂ => rw [hd] at hd₂; cases hd₂; rw [hs'] at hs₂; cases hs₂
    | beyond _ hu₂ _ hd₂ _ ht₂ =>
      rw [hu] at hu₂; cases hu₂
      rw [hd] at hd₂; cases hd₂
      exact ih ht₂

theorem Borrows.unique {strategy : Recovery} {v : ν} {s t : Span} (h : w.Borrows strategy v s)
    (h' : w.Borrows strategy v t) : s = t := by
  cases h with
  | fail => cases h'; rfl
  | parent h => cases h' with | parent h₂ => exact h.unique h₂
  | child h => cases h' with | child h₂ => exact h.unique h₂
  | parentFirst h hs =>
    cases h' with
    | parentFirst h₂ => exact h.unique h₂
    | parentThenChild h₂ hs₂ => rw [h.unique h₂, hs₂] at hs; cases hs
  | parentThenChild h hs ht =>
    cases h' with
    | parentFirst h₂ hs₂ => rw [h.unique h₂, hs₂] at hs; cases hs
    | parentThenChild _ _ ht₂ => exact ht.unique ht₂
  | childFirst h hs =>
    cases h' with
    | childFirst h₂ => exact h.unique h₂
    | childThenParent h₂ hs₂ => rw [h.unique h₂, hs₂] at hs; cases hs
  | childThenParent h hs ht =>
    cases h' with
    | childFirst h₂ hs₂ => rw [h.unique h₂, hs₂] at hs; cases hs
    | childThenParent _ _ ht₂ => exact ht.unique ht₂
  | alternate h => cases h' with | alternate h₂ => exact h.unique h₂

theorem HasSpanUnder.unique {strategy : Recovery} {v : ν} {s t : Span}
    (h : w.HasSpanUnder strategy v s) (h' : w.HasSpanUnder strategy v t) : s = t := by
  unfold HasSpanUnder at h h'
  by_cases hm : (w.rawSpan v).isMeaningful = true
  · rw [if_pos hm] at h h'
    rw [h, h']
  · rw [if_neg hm] at h h'
    exact h.unique h'

theorem HasSpan.unique {v : ν} {s t : Span} (h : w.HasSpan v s) (h' : w.HasSpan v t) : s = t :=
  HasSpanUnder.unique h h'

/-! ## Other settings -/

theorem Ahead.recovery {host : Host ν} {config : Config} {root : ν}
    {next : ν → Except Fault (Option ν)} {v : ν} {s : Span} (h : Ahead ⟨host, config, root⟩ next v s)
    (strategy : Recovery) : Ahead ⟨host, { config with recovery := strategy }, root⟩ next v s := by
  induction h with
  | ends h => exact .ends h
  | here h hm => exact .here h hm
  | beyond h hm _ ih => exact .beyond h hm ih

theorem Around.recovery {host : Host ν} {config : Config} {root : ν} {up down : Option ν} {s : Span}
    (h : Around ⟨host, config, root⟩ up down s) (strategy : Recovery) :
    Around ⟨host, { config with recovery := strategy }, root⟩ up down s := by
  induction h with
  | ends => exact .ends
  | foundAbove hu hs => exact .foundAbove hu hs
  | foundBelow hu hs hd hs' => exact .foundBelow hu hs hd hs'
  | beyond hne hu hs hd hs' _ ih => exact .beyond hne hu hs hd hs' ih

/-- The configured strategy has no part in what a node borrows under a given one. -/
theorem Borrows.recovery {host : Host ν} {config : Config} {root : ν} {st : Recovery} {v : ν} {s : Span}
    (h : Borrows ⟨host, config, root⟩ st v s) (strategy : Recovery) :
    Borrows ⟨host, { config with recovery := strategy }, root⟩ st v s := by
  cases h with
  | fail => exact .fail
  | parent h => exact .parent (h.recovery strategy)
  | child h => exact .child (h.recovery strategy)
  | parentFirst h hs => exact .parentFirst (h.recovery strategy) hs
  | parentThenChild h hs ht => exact .parentThenChild (h.recovery strategy) hs (ht.recovery strategy)
  | childFirst h hs => exact .childFirst (h.recovery strategy) hs
  | childThenParent h hs ht => exact .childThenParent (h.recovery strategy) hs (ht.recovery strategy)
  | alternate h => exact .alternate (h.recovery strategy)

end Waymark.View
