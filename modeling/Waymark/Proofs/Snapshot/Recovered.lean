import Waymark.Proofs.Snapshot.Ending

/-!
# Which span is recovered

Where parents and first children are told and neither go in a circle, a node has a span under every
strategy: its own, or that of the nearest node with one in the directions that the strategy looks in.
What the snapshot was asked before, and under which strategies, makes no difference.
-/

namespace Waymark

open Relation Snapshot

variable {ν : Type}

/-! ## Levels -/

namespace Host

variable (host : Host ν)

def parent? (v : ν) : Option ν := (host.parent v).toOption.join

def firstChild? (v : ν) : Option ν :=
  match host.childCount v with
  | .ok (_ + 1) => (host.child v 0).toOption
  | _ => none

variable {host} in
theorem parent?_eq {v : ν} {p : Option ν} (h : host.parent v = .ok p) : host.parent? v = p := by
  rw [parent?, h]
  exact Option.join_some

variable {host} in
theorem firstChild?_eq {w : View ν} {v : ν} {c : Option ν} (h : w.firstChild v = .ok c) :
    w.host.firstChild? v = c := by
  simp only [View.firstChild, View.childCount, View.bind_eq_ok, View.told_eq_ok] at h
  obtain ⟨count, hcount, h⟩ := h
  rw [firstChild?, hcount]
  cases count with
  | zero => exact View.pure_eq_ok.1 h
  | succ k =>
    simp only [Nat.zero_lt_succ, if_true, View.bind_eq_ok, View.pure_eq_ok] at h
    obtain ⟨c, hc, rfl⟩ := h
    obtain ⟨_, _, _, hc⟩ := View.child_eq_ok.1 hc
    simp only [hc]
    rfl

/-- The parents of the nodes in `N` and their first children are told, and neither go in a circle. -/
structure ChainsEnd (N : ν → Prop) : Prop where
  parent : ∀ v, N v → ∃ p, host.parent v = .ok p
  childCount : ∀ v, N v → ∃ count, host.childCount v = .ok count
  child : ∀ v count i, N v → host.childCount v = .ok count → i < count → ∃ c, host.child v i = .ok c
  up : ∀ v p, N v → host.HasParent v p → N p
  down : ∀ v c, N v → host.HasFirst v c → N c
  circle : ∀ v, N v → ¬ TransGen host.HasParent v v
  spiral : ∀ v, N v → ¬ TransGen host.HasFirst v v

end Host

def ahead (next : ν → Option ν) : Nat → ν → Option ν
  | 0, v => some v
  | d + 1, v => (next v).bind (ahead next d)

/-- The first span that is meaningful: of those at distance 1, then of those at distance 2, and so on. If
there is none, it is no span. -/
def Nearest (spans : Nat → List Span) (s : Span) : Prop :=
  (∃ d, 0 < d ∧ (spans d).find? Span.isMeaningful = some s ∧
    ∀ k, 0 < k → k < d → (spans k).find? Span.isMeaningful = none) ∨
  s = .none ∧ ∀ d, 0 < d → (spans d).find? Span.isMeaningful = none

section
variable {spans spans' : Nat → List Span} {s : Span}

theorem Nearest.here (h : (spans 1).find? Span.isMeaningful = some s) : Nearest spans s := by
  refine .inl ⟨1, Nat.one_pos, h, fun k hk hk1 => ?_⟩
  omega

theorem Nearest.beyond (h : (spans 1).find? Span.isMeaningful = none)
    (heq : ∀ d, spans (d + 2) = spans' (d + 1)) (hn : Nearest spans' s) : Nearest spans s := by
  have later : ∀ k, (∀ j, 0 < j → j < k → (spans' j).find? Span.isMeaningful = none) →
      ∀ j, 0 < j → j < k + 1 → (spans j).find? Span.isMeaningful = none := by
    intro k hk j hj hjk
    match j with
    | 1 => exact h
    | j + 2 =>
      rw [heq]
      exact hk (j + 1) (Nat.succ_pos j) (Nat.lt_of_succ_lt_succ hjk)
  rcases hn with ⟨d, hd, hfound, hbefore⟩ | ⟨rfl, hnone⟩
  · refine .inl ⟨d + 1, Nat.succ_pos d, ?_, later d hbefore⟩
    obtain ⟨d, rfl⟩ := Nat.exists_eq_succ_of_ne_zero (Nat.ne_of_gt hd)
    rw [heq]
    exact hfound
  · exact .inr ⟨rfl, fun d hd => later d (fun j hj _ => hnone j hj) d hd (Nat.lt_succ_self d)⟩

theorem Nearest.eq_none (h : Nearest spans s) (hs : s.isMeaningful = false) : s = .none := by
  rcases h with ⟨d, -, hfound, -⟩ | ⟨hnone, -⟩
  · rw [List.find?_some hfound] at hs
    cases hs
  · exact hnone

end

theorem ahead_succ (next : ν → Option ν) (d : Nat) (o : Option ν) :
    o.bind (ahead next (d + 1)) = (o.bind next).bind (ahead next d) := by
  cases o <;> rfl

theorem reaches_of_ahead {next : ν → Option ν} {r : ν → ν → Prop} (hr : ∀ v u, next v = some u → r v u) :
    ∀ {d : Nat} {v u : ν}, ahead next d v = some u → ReflTransGen r v u
  | 0, v, u, h => by
    cases h
    exact .refl
  | d + 1, v, u, h => by
    obtain ⟨x, hx, h⟩ := Option.bind_eq_some_iff.1 h
    exact .head (hr v x hx) (reaches_of_ahead hr h)

theorem ahead_one (next : ν → Option ν) (o : Option ν) : o.bind (ahead next 1) = o.bind next := by
  rw [ahead_succ]
  cases o.bind next <;> rfl

namespace View

variable (w : View ν)

def spanAt (o : Option ν) : Span := (o.map w.rawSpan).getD .none

/-- The span of a node that has none of its own, by the distance of nodes that have one: above it by
parents, and below it by first children. -/
def Recovers (strategy : Recovery) (v : ν) (s : Span) : Prop :=
  let above d := w.spanAt (ahead w.host.parent? d v)
  let below d := w.spanAt (ahead w.host.firstChild? d v)
  match strategy with
  | .fail => s = .none
  | .parent => Nearest (fun d => [above d]) s
  | .child => Nearest (fun d => [below d]) s
  | .parentThenChild => Nearest (fun d => [above d]) s ∧ s.isMeaningful = true ∨
      Nearest (fun d => [above d]) .none ∧ Nearest (fun d => [below d]) s
  | .childThenParent => Nearest (fun d => [below d]) s ∧ s.isMeaningful = true ∨
      Nearest (fun d => [below d]) .none ∧ Nearest (fun d => [above d]) s
  | .alternate => Nearest (fun d => [above d, below d]) s

variable {w} {v : ν} {s : Span}

theorem Ahead.nearest {next : ν → Except Fault (Option ν)} {next? : ν → Option ν}
    (hnext : ∀ v o, next v = .ok o → next? v = o) (h : w.Ahead next v s) :
    Nearest (fun d => [w.spanAt (ahead next? d v)]) s := by
  induction h with
  | ends h =>
    refine .inr ⟨rfl, fun d hd => ?_⟩
    obtain ⟨d, rfl⟩ := Nat.exists_eq_succ_of_ne_zero (Nat.ne_of_gt hd)
    simp only [ahead, hnext _ _ h]
    rfl
  | here h hm => exact .here (by simp [ahead, hnext _ _ h, spanAt, hm])
  | beyond h hm _ ih =>
    refine .beyond ?_ (fun d => ?_) ih
    · simp [ahead, hnext _ _ h, spanAt, hm]
    · rw [ahead, hnext _ _ h]
      rfl

theorem stepUp_ahead {up up' : Option ν} (h : w.stepUp up = .ok (up', s)) :
    up' = up.bind w.host.parent? ∧ s = w.spanAt up' := by
  cases up with
  | none =>
    cases h
    exact ⟨rfl, rfl⟩
  | some u =>
    simp only [stepUp, bind_eq_ok] at h
    obtain ⟨p, hp, h⟩ := h
    rw [Option.bind_some, Host.parent?_eq (told_eq_ok.1 hp)]
    cases p <;> cases h <;> exact ⟨rfl, rfl⟩

theorem stepDown_ahead {down down' : Option ν} (h : w.stepDown down = .ok (down', s)) :
    down' = down.bind w.host.firstChild? ∧ s = w.spanAt down' := by
  cases down with
  | none =>
    cases h
    exact ⟨rfl, rfl⟩
  | some u =>
    simp only [stepDown, bind_eq_ok] at h
    obtain ⟨c, hc, h⟩ := h
    rw [Option.bind_some, Host.firstChild?_eq hc]
    cases c <;> cases h <;> exact ⟨rfl, rfl⟩

theorem Around.nearest {up down : Option ν} (h : w.Around up down s) :
    Nearest (fun d => [w.spanAt (up.bind (ahead w.host.parent? d)),
      w.spanAt (down.bind (ahead w.host.firstChild? d))]) s := by
  induction h with
  | ends => exact .inr ⟨rfl, fun d _ => rfl⟩
  | foundAbove hu hs =>
    obtain ⟨rfl, rfl⟩ := stepUp_ahead hu
    exact .here (by simp [ahead_one, hs])
  | foundBelow hu hs hd hs' =>
    obtain ⟨rfl, rfl⟩ := stepUp_ahead hu
    obtain ⟨rfl, rfl⟩ := stepDown_ahead hd
    exact .here (by simp [ahead_one, hs, hs'])
  | beyond _ hu hs hd hs' _ ih =>
    obtain ⟨rfl, rfl⟩ := stepUp_ahead hu
    obtain ⟨rfl, rfl⟩ := stepDown_ahead hd
    refine .beyond ?_ (fun d => ?_) ih
    · simp [ahead_one, hs, hs']
    · rw [ahead_succ, ahead_succ w.host.firstChild?]

/-- A span that is borrowed is that of a nearest node. -/
theorem Borrows.recovers {strategy : Recovery} (h : w.Borrows strategy v s) : w.Recovers strategy v s := by
  have above : ∀ {s}, w.Ahead w.parent v s → Nearest (fun d => [w.spanAt (ahead w.host.parent? d v)]) s :=
    Ahead.nearest fun _ _ h => Host.parent?_eq (told_eq_ok.1 h)
  have below : ∀ {s}, w.Ahead w.firstChild v s →
      Nearest (fun d => [w.spanAt (ahead w.host.firstChild? d v)]) s :=
    Ahead.nearest fun _ _ h => Host.firstChild?_eq h
  cases h with
  | fail => rfl
  | parent h => exact above h
  | child h => exact below h
  | parentFirst h hs => exact .inl ⟨above h, hs⟩
  | parentThenChild h hs ht =>
    have hn := above h
    rw [hn.eq_none hs] at hn
    exact .inr ⟨hn, below ht⟩
  | childFirst h hs => exact .inl ⟨below h, hs⟩
  | childThenParent h hs ht =>
    have hn := below h
    rw [hn.eq_none hs] at hn
    exact .inr ⟨hn, above ht⟩
  | alternate h => exact h.nearest

end View

/-! ## Recovering -/

namespace Host

variable {host : Host ν} {N : ν → Prop}

theorem not_failsBelow {v : ν} (hcount : ∃ count, host.childCount v = .ok count)
    (hchild : ∀ count i, host.childCount v = .ok count → i < count → ∃ c, host.child v i = .ok c)
    (m : String) : ¬ host.FailsBelow v m := by
  intro h
  cases h with
  | count h =>
    obtain ⟨count, hc⟩ := hcount
    rw [h] at hc
    cases hc
  | child hc hi h =>
    obtain ⟨c, hv⟩ := hchild _ _ hc hi
    rw [h] at hv
    cases hv

theorem ChainsEnd.excuses (hN : host.ChainsEnd N) (s : Snapshot ν) :
    Op.SpanExcuses host (s.scope host) (fun _ => False) N N where
  up := hN.up
  parent v m hv h := by
    obtain ⟨p, hp⟩ := hN.parent v hv
    rw [h] at hp
    cases hp
  circle v _ hv h := hN.circle v hv h
  down := hN.down
  children v m hv h := not_failsBelow (hN.childCount v hv) (fun _ _ => hN.child v _ _ hv) m h
  spiral v _ hv h := hN.spiral v hv h
  enough := .inr (s.fewer_scope_reach host)

theorem Grown.chainsEnd (hg : host.Grown N) : host.ChainsEnd N :=
  { hg with
    down := fun v c hv hc => hg.down v 0 c hv hc
    spiral := fun v hv h => by
      have hle : host.HasFirst ≤ host.IsChild := fun _ _ hc => ⟨0, hc⟩
      exact hg.not_circle hv (TransGen.mono hle v v h) }

end Host

variable [DecidableEq ν]

namespace Op

def spanOf (v : ν) : Op ν Span := do span (← intern v)

theorem spanOf_meets {w : View ν} {K : Scope w.host} {E : Fault → Prop} {U D : ν → Prop} {s₀ : Snapshot ν}
    (hS : SpanExcuses w.host K E U D) {v : ν} (hv : K.holds v) (hU : U v) (hD : D v) :
    Keeps w K E s₀ (spanOf v) (fun _ span => w.HasSpan v span) := by
  refine Meets.bind (intern_tells hv).sure fun s n _ _ hn => ?_
  obtain ⟨hn, rfl⟩ := hn
  exact span_meets hS hn hU hD

end Op

namespace Snapshot

open Op

/-- A node has its own span, or else that of a nearest node, under every strategy and after whatever was
asked before. -/
theorem History.spanWith_recovers {host : Host ν} {root : ν} {s : Snapshot ν} (h : s.History host root)
    {N : ν → Prop} (hN : host.ChainsEnd N) {n : Node ν} (hn : s.Knows n) (hv : N n.host) (strategy : Recovery) :
    ∃ span, ((spanWith strategy n).exec host s).1 = .ok span ∧
      if (host.rawSpan s.config.positions n.host).isMeaningful then
        span = host.rawSpan s.config.positions n.host
      else View.Recovers ⟨host, s.config, root⟩ strategy n.host span := by
  let w : View ν := ⟨host, s.config, root⟩
  have hof : s.Of w (.all w.host) := h.of_all
  obtain ⟨span, hrun, hspan⟩ := Keeps.ends hof (spanWith_meets (hN.excuses s) hn hv hv strategy)
  refine ⟨span, hrun, ?_⟩
  show if (w.rawSpan n.host).isMeaningful then span = w.rawSpan n.host else w.Recovers strategy n.host span
  unfold View.HasSpanUnder at hspan
  split
  · rename_i hm
    rwa [if_pos hm] at hspan
  · rename_i hm
    rw [if_neg hm] at hspan
    exact hspan.recovers

end Snapshot

/-- Nodes below each other, of which only the lowest has a place in the text. -/
inductive TowerNode where
  | top
  | upper
  | lower
  | ground
  deriving DecidableEq

namespace TowerNode

open Op Snapshot

def height : TowerNode → Nat
  | top => 3
  | upper => 2
  | lower => 1
  | ground => 0

def tower : Host TowerNode where
  size := 4
  childCount v := .ok (if v = ground then 0 else 1)
  child v _ := .ok (match v with
    | top => upper
    | upper => lower
    | lower | ground => ground)
  parent v := .ok (match v with
    | top => none
    | upper => some top
    | lower => some upper
    | ground => some lower)
  typeName _ := "Block"
  packedSpan v := if v = ground then some ⟨5, 9⟩ else none
  bounded := ⟨[top, upper, lower, ground], by simp, fun v _ => by cases v <;> simp⟩

theorem chainsEnd_tower : tower.ChainsEnd fun _ => True where
  parent _ _ := ⟨_, rfl⟩
  childCount _ _ := ⟨_, rfl⟩
  child _ _ _ _ _ _ := ⟨_, rfl⟩
  up _ _ _ _ := trivial
  down _ _ _ _ := trivial
  circle v _ := by
    refine not_circle_of_lt (fun v => 3 - v.height) (fun v p h => ?_) v
    cases v <;> cases h <;> decide
  spiral v _ := by
    refine not_circle_of_lt height (fun v c h => ?_) v
    obtain ⟨count, hcount, hlt, hc⟩ := h
    cases v <;> cases hcount <;> cases hc <;> simp_all [height]

/-- The snapshot was asked for the span that the upper node has by its parents: there is none. -/
def towerAsked : Snapshot TowerNode :=
  ((Request.spanWith .parent upper).op.exec tower (ofRoot {} tower top)).2

/-- There is nothing above, and what is below is two steps away. -/
theorem spanWith_recovers_tower :
    ((spanWith .alternate ⟨1, upper⟩).exec tower towerAsked).1 = .ok ⟨5, 9⟩ ∧
      View.Recovers ⟨tower, {}, top⟩ .alternate upper ⟨5, 9⟩ := by
  have hs : towerAsked.History tower top := (History.fresh {}).request (.spanWith .parent upper)
  have hrun : ((spanWith .alternate ⟨1, upper⟩).exec tower towerAsked).1 = .ok ⟨5, 9⟩ := by decide +kernel
  have hhandle : towerAsked.handle? 1 = some upper := by cbv
  have hconfig : towerAsked.config = {} := by cbv
  have hknows : towerAsked.Knows ⟨1, upper⟩ := hhandle
  obtain ⟨span, hspan, hrec⟩ := hs.spanWith_recovers chainsEnd_tower hknows trivial .alternate
  rw [hrun] at hspan
  cases hspan
  rw [hconfig] at hrec
  exact ⟨hrun, hrec⟩

end TowerNode

end Waymark
